import SeriesQuery.Expr.Render
import SeriesQuery.Template.Scope

/-!
# Expansion of templates

`Expr.expandTemplates` replaces each reference to a template by what it stands for.  A name can
refer to a template as a metric, a called function, a filter without comparison, a part of a
string, a duration, or a label of a list.

The functions here are given `enter`, which expands the body of a template in its scope; templates
that refer to each other go `maxExpansionDepth` deep at most.
-/

namespace SeriesQuery

/-- How deep templates may refer to each other. -/
def maxExpansionDepth : Nat := 64

/-- What expansion gives. -/
abbrev Expansion (α : Type) := Except ParseError α

/-- Expands the body of the named template in a scope. -/
abbrev Enter := String → Scope → Expr → Expansion Expr

/-- An error of expansion. -/
def expansionError {α : Type} (cause : ExpansionError) : Expansion α :=
  .error (.expansion cause)

/-! ## References -/

/-- The text of a template with its parameters. -/
def Template.signature (t : Template) : String :=
  t.name ++ "(" ++ String.intercalate ", " t.params ++ ")"

/-- Expands a template with arguments, one for each parameter. -/
def instantiate (enter : Enter) (t : Template) (scope : Scope) (args : List Expr) :
    Expansion Expr :=
  if args.length ≠ t.params.length then
    .error (.argumentCount t.signature t.params.length args.length)
  else if t.params.isEmpty then enter t.name scope t.body
  else enter t.name (.arguments (t.params.zip args) :: scope) t.body

/-- What a name with this meaning stands for without arguments.  A template with parameters then is
the name of a metric. -/
def refer (enter : Enter) : Meaning → Expansion Expr
  | .value e => .ok e
  | .template t scope =>
      if t.params.isEmpty then instantiate enter t scope []
      else .ok (.selector (.ofName t.name))

/-- What a name with this meaning stands for when it is called. -/
def callMeaning (enter : Enter) (name : String) (args : List Expr) : Meaning → Expansion Expr
  | .value e => if args.isEmpty then .ok e else .error (.argumentCount name 0 args.length)
  | .template t scope => instantiate enter t scope args

/-- What a plain name refers to: a template without parameters, or an argument. -/
def plainMeaning (scope : Scope) (name : String) : Option Meaning :=
  (scope.lookup name).filter fun
    | .template t _ => t.params.isEmpty
    | .value _ => true

/-! ## Durations -/

/-- The duration that an expression stands for in place of a name. -/
def durationOf (name : String) : Expr → Expansion Duration
  | .duration d => .ok d
  | .number n => .ok ⟨n.render, false⟩
  | e => expansionError (.notDuration name e.render)

/-- A duration with its template expanded. -/
def expandDuration (enter : Enter) (scope : Scope) (d : Duration) : Expansion Duration :=
  match d.templateName? with
  | none => .ok d
  | some name =>
      match scope.lookup name with
      | none => expansionError (.missingDuration name)
      | some meaning => refer enter meaning >>= durationOf name

/-- A duration that may be missing. -/
def expandDuration? (enter : Enter) (scope : Scope) : Option Duration → Expansion (Option Duration)
  | none => .ok none
  | some d => some <$> expandDuration enter scope d

/-- A range with its durations expanded. -/
def expandRange (enter : Enter) (scope : Scope) (r : Range) : Expansion Range := do
  let window ← expandDuration? enter scope r.window
  let step ← expandDuration? enter scope r.step
  let offset ← expandDuration? enter scope r.offset
  return ⟨window, step, offset, r.inheritStep⟩

/-! ## Labels -/

/-- The label that a bare name of a metric is, if the expression is one. -/
def labelOf? : Expr → Option String
  | .selector s => if s.isOnlyName then s.name? else none
  | _ => none

/-- The labels that the items of a list are. -/
def labelsOfList (label : String) : List Expr → Expansion (List String)
  | [] => .ok []
  | e :: es =>
      match labelOf? e with
      | some name => (name :: ·) <$> labelsOfList label es
      | none => expansionError (.notLabels label e.render)

/-- The labels that an expression stands for in place of a label. -/
def labelsOf (label : String) (e : Expr) : Expansion (List String) :=
  match e with
  | .tuple items => labelsOfList label items
  | e =>
      match labelOf? e with
      | some name => .ok [name]
      | none => expansionError (.notLabels label e.render)

/-- The labels that one label stands for. -/
def expandLabel (enter : Enter) (scope : Scope) (label : String) : Expansion (List String) :=
  match plainMeaning scope label with
  | none => .ok [label]
  | some meaning => refer enter meaning >>= labelsOf label

/-- The labels that the labels of a list stand for. -/
def expandLabelList (enter : Enter) (scope : Scope) : List String → Expansion (List String)
  | [] => .ok []
  | label :: rest => do
      let here ← expandLabel enter scope label
      let there ← expandLabelList enter scope rest
      return here ++ there

/-- A list of labels with its templates expanded, each label once. -/
def expandLabels (enter : Enter) (scope : Scope) (labels : List String) :
    Expansion (List String) :=
  List.eraseDups <$> expandLabelList enter scope labels

/-! ## Strings -/

/-- The string that an expression stands for in place of a name in `within`. -/
def stringOf (name : String) (within : StringExpr) : Expr → Expansion (Option String)
  | .string value => .ok (some value)
  | e => expansionError (.notString name within.render e.render)

/-- A string with its templates expanded. -/
def expandString (enter : Enter) (scope : Scope) (s : StringExpr) : Expansion String :=
  s.resolve (fun name => .expansion (.missingString name s.render)) fun name =>
    match scope.lookup name with
    | none => .ok none
    | some meaning => refer enter meaning >>= stringOf name s

/-! ## Selectors -/

/-- The filters that an expression stands for in place of a filter. -/
def filtersOf (name : String) (e : Expr) : Expansion (List LabelFilter) :=
  match e with
  | .selector s =>
      if s.name?.isSome then expansionError (.notFilters name e.render)
      else if s.hasAlternatives then expansionError (.filtersWithOr name s.render)
      else .ok (s.groups.head?.getD [])
  | e => expansionError (.notFilters name e.render)

/-- The filters that a name without comparison stands for. -/
def expandSplice (enter : Enter) (scope : Scope) (name : String) :
    Expansion (List LabelFilter) :=
  match scope.lookup name with
  | none => expansionError (.missingFilters name)
  | some meaning => refer enter meaning >>= filtersOf name

/-- The plain filters that a filter stands for. -/
def expandFilter (enter : Enter) (scope : Scope) (f : FilterExpr) :
    Expansion (List LabelFilter) :=
  if f.isSplice then expandSplice enter scope f.label
  else do
    let value ← expandString enter scope f.value
    match LabelFilter.ofParts? f.op f.label value with
    | .ok filter => return [filter]
    | .error cause => throw (.pattern cause)

/-- The plain filters of a group. -/
def expandGroup (enter : Enter) (scope : Scope) : List FilterExpr → Expansion (List LabelFilter)
  | [] => .ok []
  | f :: fs => do
      let here ← expandFilter enter scope f
      let there ← expandGroup enter scope fs
      return here ++ there

/-- The plain groups of a selector.  Where filters of templates are put in, none is kept twice. -/
def expandGroups (enter : Enter) (scope : Scope) (unique : Bool) :
    List (List FilterExpr) → Expansion (List (List LabelFilter))
  | [] => .ok []
  | g :: gs => do
      let here ← expandGroup enter scope g
      let there ← expandGroups enter scope unique gs
      return (if unique then LabelFilter.dedup here else here) :: there

/-- The filters besides the name that the selector was found by. -/
def filtersBesides (name : String) (s : Selector) : List (List LabelFilter) :=
  s.groups.map fun g => g.filter fun f => !(f.isNameFilter && f.value == name)

/-- Each group of the template with each of the further groups. -/
def mergeGroups (name : String) (template : Selector) (more : List (List LabelFilter)) :
    Expansion Selector :=
  if template.hasAlternatives && 1 < more.length then
    expansionError (.bothWithOr name template.render)
  else
    let groups := if template.groups.isEmpty then [[]] else template.groups
    .ok ⟨groups.flatMap fun g => more.map fun h => LabelFilter.dedup (g ++ h)⟩

/-- What the name of a metric stands for, with further filters. -/
def addFilters (name : String) (more : List (List LabelFilter)) (value : Expr) : Expansion Expr :=
  if more.all List.isEmpty then .ok value
  else
    match value with
    | .selector s => .selector <$> mergeGroups name s more
    | .rollup (.selector s) range time =>
        (fun s => .rollup (.selector s) range time) <$> mergeGroups name s more
    | e => expansionError (.takesNoFilters name e.render)

/-- A plain selector, with what its name stands for in its place. -/
def expandName (enter : Enter) (scope : Scope) (s : Selector) : Expansion Expr :=
  match s.name? with
  | none => .ok (.selector s)
  | some name =>
      match plainMeaning scope name with
      | none => .ok (.selector s)
      | some meaning => refer enter meaning >>= addFilters name (filtersBesides name s)

/-- A selector with its templates expanded. -/
def expandSelector (enter : Enter) (scope : Scope) (s : SelectorExpr) : Expansion Expr := do
  let unique := s.groups.any fun g => g.any FilterExpr.isSplice
  let groups ← expandGroups enter scope unique s.groups
  expandName enter scope ⟨groups⟩

/-! ## Nodes -/

/-- A call with its arguments expanded. -/
def expandCall (enter : Enter) (scope : Scope) (name : String) (args : List Expr)
    (keepNames : Bool) : Expansion Expr :=
  match scope.lookup name with
  | none => .ok (.call name args keepNames)
  | some meaning => do
      let e ← callMeaning enter name args meaning
      return if keepNames then e.markKeepNames.getD e else e

/-- An aggregate with its arguments expanded. -/
def expandAggregate (enter : Enter) (scope : Scope) (a : Aggregation) (args : List Expr) :
    Expansion Expr :=
  match scope.lookup a.name with
  | some meaning => callMeaning enter a.name args meaning
  | none =>
      match a.grouping with
      | none => .ok (.aggregate a args)
      | some grouping => do
          let labels ← expandLabels enter scope grouping.labels
          return .aggregate { a with grouping := some (grouping.withLabels labels) } args

/-- An operator with the labels and strings of its modifiers expanded. -/
def expandOperator (enter : Enter) (scope : Scope) (b : BinaryOp) : Expansion BinaryOp := do
  let matching ←
    match b.matching with
    | some m => (fun labels => some ⟨m.kind, labels⟩) <$> expandLabels enter scope m.labels
    | none => pure none
  let join ←
    match b.join with
    | some j => (fun labels => some ⟨j.side, labels⟩) <$> expandLabels enter scope j.labels
    | none => pure none
  let joinLead ←
    match b.joinLead with
    | some s => (fun value => some (.ofLiteral value)) <$> expandString enter scope s
    | none => pure none
  return { b with matching, join, joinLead }

namespace Expr

mutual

/-- The expression with its templates expanded, where `enter` expands the bodies of templates. -/
def expandWith (enter : Enter) : Scope → Expr → Expansion Expr
  | _, number n => .ok (number n)
  | _, duration d => .ok (duration d)
  | _, string value => .ok (string value)
  | scope, concat s => string <$> expandString enter scope s
  | scope, selector s => expandName enter scope s
  | scope, selectorExpr s => expandSelector enter scope s
  | scope, call name args keepNames => do
      expandCall enter scope name (← expandListWith enter scope args) keepNames
  | scope, aggregate a args => do
      expandAggregate enter scope a (← expandListWith enter scope args)
  | scope, binary b l r => do
      let l ← expandWith enter scope l
      let r ← expandWith enter scope r
      return binary (← expandOperator enter scope b) l r
  | scope, rollup inner range time => do
      let inner ← expandWith enter scope inner
      let range ← expandRange enter scope range
      return rollup inner range (← expandOptionWith enter scope time)
  | scope, tuple items => ofItems <$> expandListWith enter scope items
  | scope, withTemplates ts body => expandWith enter (.templates ts :: scope) body

/-- The expressions with their templates expanded. -/
def expandListWith (enter : Enter) : Scope → List Expr → Expansion (List Expr)
  | _, [] => .ok []
  | scope, e :: es => do
      let e ← expandWith enter scope e
      return e :: (← expandListWith enter scope es)

/-- The expression, if there is one, with its templates expanded. -/
def expandOptionWith (enter : Enter) : Scope → Option Expr → Expansion (Option Expr)
  | _, none => .ok none
  | scope, some e => some <$> expandWith enter scope e

end

/-- Expands the body of a template, where templates may still go `depth` deep. -/
def enterTemplate : Nat → Enter
  | 0, name, _, _ => expansionError (.tooDeep name maxExpansionDepth)
  | depth + 1, _, scope, body => expandWith (enterTemplate depth) scope body

/-- The expression with all templates expanded. -/
def expandTemplates (e : Expr) : Expansion Expr :=
  expandWith (enterTemplate maxExpansionDepth) builtinScope e

end Expr

end SeriesQuery
