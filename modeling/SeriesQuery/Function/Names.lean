/-!
# Function names

The functions of the language by kind: aggregates over series, rollups over time, and transforms of
single values.
-/

namespace SeriesQuery

/-- The aggregate functions. -/
def aggregateNames : List String :=
  ["any", "avg", "bottomk", "bottomk_avg", "bottomk_last", "bottomk_max", "bottomk_median",
    "bottomk_min", "count", "count_values", "distinct", "geomean", "group", "histogram", "limitk",
    "mad", "max", "median", "min", "mode", "outliers_iqr", "outliers_mad", "outliersk",
    "quantile", "quantiles", "share", "stddev", "stdvar", "sum", "sum2", "topk", "topk_avg",
    "topk_last", "topk_max", "topk_median", "topk_min", "zscore"]

/-- The rollup functions. -/
def rollupNames : List String :=
  ["absent_over_time", "aggr_over_time", "ascent_over_time", "avg_over_time", "changes",
    "changes_prometheus", "count_eq_over_time", "count_gt_over_time", "count_le_over_time",
    "count_ne_over_time", "count_over_time", "count_values_over_time", "decreases_over_time",
    "default_rollup", "delta", "delta_prometheus", "deriv", "deriv_fast", "descent_over_time",
    "distinct_over_time", "duration_over_time", "first_over_time", "geomean_over_time",
    "histogram_over_time", "hoeffding_bound_lower", "hoeffding_bound_upper", "holt_winters",
    "idelta", "ideriv", "increase", "increase_prometheus", "increase_pure", "increases_over_time",
    "integrate", "iqr_over_time", "irate", "lag", "last_over_time", "lifetime", "mad_over_time",
    "max_over_time", "median_over_time", "min_over_time", "mode_over_time",
    "outlier_iqr_over_time", "predict_linear", "present_over_time", "quantile_over_time",
    "quantiles_over_time", "range_over_time", "rate", "rate_over_sum", "resets", "rollup",
    "rollup_candlestick", "rollup_delta", "rollup_deriv", "rollup_increase", "rollup_rate",
    "rollup_scrape_interval", "scrape_interval", "share_eq_over_time", "share_gt_over_time",
    "share_le_over_time", "stale_samples_over_time", "stddev_over_time", "stdvar_over_time",
    "sum2_over_time", "sum_eq_over_time", "sum_gt_over_time", "sum_le_over_time", "sum_over_time",
    "tfirst_over_time", "timestamp", "timestamp_with_name", "tlast_change_over_time",
    "tlast_over_time", "tmax_over_time", "tmin_over_time", "zscore_over_time"]

/-- The transform functions. -/
def transformNames : List String :=
  ["abs", "absent", "acos", "acosh", "alias", "asin", "asinh", "atan", "atanh", "bitmap_and",
    "bitmap_or", "bitmap_xor", "buckets_limit", "ceil", "clamp", "clamp_max", "clamp_min", "cos",
    "cosh", "day_of_month", "day_of_week", "day_of_year", "days_in_month", "deg",
    "drop_common_labels", "drop_empty_series", "end", "exp", "floor", "histogram_avg",
    "histogram_quantile", "histogram_quantiles", "histogram_share", "histogram_stddev",
    "histogram_stdvar", "hour", "interpolate", "keep_last_value", "keep_next_value", "label_copy",
    "label_del", "label_graphite_group", "label_join", "label_keep", "label_lowercase",
    "label_map", "label_match", "label_mismatch", "label_move", "label_replace", "label_set",
    "label_transform", "label_uppercase", "label_value", "labels_equal", "limit_offset", "ln",
    "log10", "log2", "minute", "month", "now", "pi", "prometheus_buckets", "rad", "rand",
    "rand_exponential", "rand_normal", "range_avg", "range_first", "range_last",
    "range_linear_regression", "range_mad", "range_max", "range_median", "range_min",
    "range_normalize", "range_quantile", "range_stddev", "range_stdvar", "range_sum",
    "range_trim_outliers", "range_trim_spikes", "range_trim_zscore", "range_zscore",
    "remove_resets", "round", "ru", "running_avg", "running_max", "running_min", "running_sum",
    "scalar", "sgn", "sin", "sinh", "smooth_exponential", "sort", "sort_by_label",
    "sort_by_label_desc", "sort_by_label_numeric", "sort_by_label_numeric_desc", "sort_desc",
    "sqrt", "start", "step", "tan", "tanh", "time", "timezone_offset", "union", "vector", "year"]

end SeriesQuery
