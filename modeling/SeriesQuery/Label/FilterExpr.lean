import SeriesQuery.Label.Filter
import SeriesQuery.StringExpr

/-!
# Label filters with templates

Before templates are expanded the value of a filter is a string expression, and a lone name among
the filters stands for the filters of a template.
-/

namespace SeriesQuery

open Text

/-- A filter whose value may refer to templates, or the name of a template with filters. -/
structure FilterExpr where
  op : FilterOp
  /-- The label, or the name of the template. -/
  label : String
  value : StringExpr
  /-- The filter stands for the filters of a template. -/
  isSplice : Bool
  deriving DecidableEq, Repr

/-- Why a filter with templates is no plain filter. -/
inductive FilterError where
  | pattern (cause : PatternError)
  /-- The filter stands for the filters of a template. -/
  | splice (label : String)
  /-- The value refers to a template. -/
  | unresolved (text : String)
  deriving DecidableEq, Repr

namespace FilterExpr

/-- The filter that fixes the name of the metric. -/
def named (name : String) : FilterExpr :=
  ⟨.equal, nameLabel, .ofLiteral name, false⟩

/-- The filters of a template. -/
def splice (name : String) : FilterExpr :=
  ⟨.equal, name, .empty, true⟩

/-- A plain filter. -/
def ofFilter (f : LabelFilter) : FilterExpr :=
  ⟨f.op, f.label, .ofLiteral f.value, false⟩

/-- The filter with these parts; a pattern without templates must be well formed. -/
def ofParts? (op : FilterOp) (label : String) (value : StringExpr) :
    Except PatternError FilterExpr :=
  let filter : FilterExpr := ⟨op, label, value, false⟩
  match value.literal? with
  | some text => (fun _ => filter) <$> LabelFilter.ofParts? op label text
  | none => .ok filter

/-- The filter fixes the name of the metric. -/
def isNameFilter (f : FilterExpr) : Bool :=
  !f.isSplice && f.label == nameLabel && f.op == .equal

/-- The filter refers to no template. -/
def isResolved (f : FilterExpr) : Bool :=
  !f.isSplice && f.value.isLiteral

/-- The text of the filter. -/
def render (f : FilterExpr) : String :=
  if f.isSplice then escapeIdent f.label
  else escapeIdent f.label ++ f.op.symbol ++ f.value.render

/-- The plain filter, if the filter refers to no template. -/
def toFilter (f : FilterExpr) : Except FilterError LabelFilter :=
  if f.isSplice then .error (.splice f.label)
  else
    match f.value.literal? with
    | some value => (LabelFilter.ofParts? f.op f.label value).mapError .pattern
    | none => .error (.unresolved f.render)

end FilterExpr

end SeriesQuery
