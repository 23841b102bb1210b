import Dataflow.Indicator
import Dataflow.Location

/-!
# Dialects of scripts

A dialect writes single statements.  Each takes the variable that the statement defines and those of
its inputs.  Two dialects are known: views in SQL, and scripts for DolphinDB.
-/

namespace Dataflow

inductive Dialect where
  | dolphindb
  | sql
deriving DecidableEq

/-- The arguments of an indicator as a call: input columns first, then the settings. -/
def Indicator.arguments (k : Indicator) (p : Indicator.Params Float) : List Text :=
  let int (n : Int64) : Text := Text.ofInt n.toInt
  match k with
  | .macd => [p.field, int p.fast, int p.slow, int p.signal]
  | .bbands => [p.field, int p.window, NumberStyle.general.float p.std]
  | .stoch => [p.high, p.low, p.close, int p.window, int p.smooth]
  | .cci | .atr | .adx => [p.high, p.low, p.close, int p.window]
  | .obv => [p.close, p.vol]
  | .vwap => [p.price, p.close, p.vol]
  | _ => [p.field, int p.window]

namespace Dialect

def name : Dialect → Text
  | dolphindb => "dolphindb"
  | sql => "sql"

def all : List Dialect := [dolphindb, sql]

def lookup? (n : Text) : Option Dialect := all.find? (·.name = n.lowercase)

def call (f : Text) (args : List Text) : Text := f ++ "(" ++ Text.join ", " args ++ ")"

def quote (t : Text) : Text := "'" ++ t.replaceAll "'" "''" ++ "'"

def quoteName (t : Text) : Text := "\"" ++ t.replaceAll "\"" "\"\"" ++ "\""

def view (v query : Text) : Text := "CREATE TEMP VIEW " ++ v ++ " AS " ++ query ++ ";"

def comment (d : Dialect) (t : Text) : Text :=
  match d with
  | dolphindb => "// " ++ t
  | sql => "-- " ++ t

def source (d : Dialect) (v : Text) (l : Location) : Text :=
  match d with
  | dolphindb =>
    if l.scheme = "dolphindb" then v ++ " = loadTable(" ++ l.path.quoted ++ ")"
    else v ++ " = loadTable(\"dfs://temp\", " ++ l.uri.quoted ++ ")"
  | sql =>
    let table := match l.format with
      | some .csv => call "read_csv_auto" [quote l.path]
      | some .parquet => call "read_parquet" [quote l.path]
      | some .jsonl => call "read_json_auto" [quote l.path]
      | none => quoteName (l.path.orElse "unknown")
    view v ("SELECT * FROM " ++ table)

def filter (d : Dialect) (v input expr : Text) : Text :=
  match d with
  | dolphindb =>
    v ++ " = select * from " ++ input ++ " where " ++ expr.orElse "true"
  | sql =>
    view v ("SELECT * FROM " ++ input ++ " WHERE " ++ expr.orElse "TRUE")

def map (d : Dialect) (v input expr function : Text) : Text :=
  let remark := d.comment ("map " ++ function ++ " has no expression")
  match d with
  | dolphindb =>
    if expr.isEmpty then v ++ " = " ++ input ++ " " ++ remark
    else v ++ " = select *, " ++ expr ++ " as payload from " ++ input
  | sql =>
    if expr.isEmpty then view v ("SELECT * FROM " ++ input) ++ " " ++ remark
    else view v ("SELECT *, (" ++ expr ++ ") AS payload FROM " ++ input)

/-- The column expressions of an indicator in SQL.  `w` is the window of the indicator, and `c` the
rows so far. -/
def sqlColumns (k : Indicator) (p : Indicator.Params Float) : List Text :=
  let full (expr : Text) : Text :=
    "CASE WHEN COUNT(*) OVER w = " ++ Text.ofInt p.window.toInt ++ " THEN " ++ expr ++ " END"
  let mid : Text := "AVG(" ++ p.field ++ ") OVER w"
  match k with
  | .sma => [full mid]
  | .bbands =>
    let sd : Text := NumberStyle.general.float p.std ++ " * STDDEV_POP(" ++ p.field ++ ") OVER w"
    [full mid, full (mid ++ " + " ++ sd), full (mid ++ " - " ++ sd)]
  | .vwap =>
    let price := call "COALESCE" [p.price, p.close]
    ["COALESCE(SUM(" ++ price ++ " * " ++ p.vol ++ ") OVER c / NULLIF(SUM(" ++ p.vol
      ++ ") OVER c, 0), " ++ price ++ ")"]
  | _ => (k.columns p).map fun c => call c (k.arguments p) ++ " OVER c"

def indicator (d : Dialect) (v input : Text) (k : Indicator) (p : Indicator.Params Float) : Text :=
  let int (n : Int64) : Text := Text.ofInt n.toInt
  let columns := k.columns p
  match d with
  | dolphindb =>
    let expr : Text := match k with
      | .sma => call "mavg" [p.field, int p.window]
      | .ema => "ewmMean(" ++ p.field ++ ", span=" ++ int p.window ++ ", adjust=false)"
      | .wma => call "wma" [p.field, int p.window]
      | .vwap =>
        "cumsum(" ++ call "nullFill" [p.price, p.close] ++ " * " ++ p.vol ++ ") \\ cumsum(" ++ p.vol
          ++ ")"
      | _ => call k.name.toLower (k.arguments p)
    let names : Text := match columns with
      | [c] => c
      | cs => "`" ++ Text.join "`" cs
    v ++ " = select *, " ++ expr ++ " as " ++ names ++ " from " ++ input
  | sql =>
    let selected := List.zipWith (fun (e c : Text) => e ++ " AS " ++ c) (sqlColumns k p) columns
    view v ("SELECT *, " ++ Text.join ", " selected ++ " FROM " ++ input
      ++ " WINDOW w AS (ROWS BETWEEN " ++ int (p.window - 1)
      ++ " PRECEDING AND CURRENT ROW), c AS (ROWS BETWEEN UNBOUNDED PRECEDING AND CURRENT ROW)")

def concat (d : Dialect) (v : Text) (inputs : List Text) : Text :=
  match d with
  | dolphindb =>
    match inputs with
    | [a, b] => v ++ " = " ++ call "unionAll" [a, b]
    | _ => v ++ " = unionAll([" ++ Text.join ", " inputs ++ "], false)"
  | sql => view v (Text.join " UNION ALL " (inputs.map fun t => "SELECT * FROM " ++ t))

def choice (d : Dialect) (v a b : Text) : Text :=
  match d with
  | dolphindb => v ++ " = iif(size(" ++ a ++ ") > 0, " ++ a ++ ", " ++ b ++ ")"
  | sql => view v ("SELECT * FROM " ++ a ++ " UNION ALL SELECT * FROM " ++ b
      ++ " WHERE NOT EXISTS (SELECT 1 FROM " ++ a ++ ")")

def ensemble (d : Dialect) (v a b : Text) : Text :=
  match d with
  | dolphindb => v ++ " = " ++ call "table" [a, b]
  | sql => view v ("SELECT * FROM (SELECT *, ROW_NUMBER() OVER () AS _rn FROM " ++ a
      ++ ") l JOIN (SELECT *, ROW_NUMBER() OVER () AS _rn FROM " ++ b ++ ") r USING (_rn)")

def join (d : Dialect) (v a b on : Text) : Text :=
  match d with
  | dolphindb => v ++ " = " ++ call "ej" [a, b, on.quoted]
  | sql => view v ("SELECT * FROM " ++ a ++ " JOIN " ++ b ++ " USING (" ++ on ++ ")")

def reduce (d : Dialect) (v input expr : Text) : Text :=
  match d with
  | dolphindb => v ++ " = select " ++ expr ++ " as value from " ++ input
  | sql => view v ("SELECT " ++ expr ++ " AS value FROM " ++ input)

def fileTarget? (l : Location) : Option Text :=
  let uri := l.uri.lowercase
  if uri.isEmpty || uri = "stdout" || uri = "console" || uri = "memory" || uri = "collect"
      || l.scheme = "memory" then none
  else if l.isFile then some l.path
  else some l.uri

def sink (d : Dialect) (input : Text) (l : Location) : Text :=
  match d, fileTarget? l with
  | dolphindb, some t => call "saveText" [input, t.quoted]
  | dolphindb, none => call "print" [input]
  | sql, some t => "COPY " ++ input ++ " TO " ++ quote t ++ ";"
  | sql, none => "SELECT * FROM " ++ input ++ ";"

end Dialect

end Dataflow
