/-
**Taking findings from a report.**

`findings` reads a report and makes a finding of each item that its matcher selects, in document
order. Items whose level says so are passed over, and numbers that an expression does not give are left
out.
-/

import XPathAnnotator.Report.Item
import XPathAnnotator.Report.Matcher
import XPathAnnotator.Tree.Build
import XPathAnnotator.Workflow.Runner

namespace XPathAnnotator.Report

open XPathAnnotator.Data XPathAnnotator.Workflow

/-- Why a report gives no findings. -/
inductive ReportError where
  | file (error : FileError)
  | xml (error : Xml.XmlError)
  | query (error : QueryError)
  | evaluation (error : EvalError)
  /-- The matcher has no expression for messages. -/
  | noMessage

/-- The wording of an error on a report. -/
def ReportError.message : ReportError → String
  | file e => e.message
  | xml e => e.message
  | query e => e.message
  | evaluation e => e.message
  | noMessage => "object of type 'NoneType' has no len()"

/-- The value of an expression on an item. -/
def valueOn (item : ReportItem) (source : String) : Except ReportError Value := do
  let e ← (readQuery source).mapError .query
  (item.evaluate e).mapError .evaluation

/-- The level of an item, with the records of the conditions that were tried. -/
def levelOf (item : ReportItem) : List (ItemLevel × String) → Work ReportError ItemLevel
  | [] => return .shown .error
  | (level, condition) :: rest => do
    let holds := (← liftM (valueOn item condition)).toTruth
    Work.debug ("Checking level " ++ level.title ++ " with path " ++ condition ++ ": " ++
      Datum.shownTruth holds)
    if holds then return level else levelOf item rest

/-- A number as a property: an integer if it is one, and nothing if it is no number. -/
def numberProperty? (x : Float) : Option Setting :=
  if x.isNaN then none
  else match Number.Dyadic.ofFloat? x with
    | some d => if d.isInteger then some (.integer d.truncate) else some (.number x)
    | none => some (.number x)

/-- The value of a property of an item. An empty expression gives none. -/
def propertyOf (item : ReportItem) (m : Matcher) (p : Property) :
    Except ReportError (Option (Property × Setting)) :=
  match m.expressionOf p with
  | none | some "" => return none
  | some source => do
    let value ← valueOn item source
    if p.isNumber then return (numberProperty? (value.toNumber item.forest)).map fun x => (p, x)
    else return some (p, .text (value.toText item.forest))

/-- The finding of an item, unless it is passed over. -/
def findingOf (item : ReportItem) (m : Matcher) : Work ReportError (Option Finding) := do
  match ← levelOf item m.levels with
  | .ignored =>
    Work.debug "Ignoring item."
    return none
  | .shown severity =>
    match m.message with
    | none => throw .noMessage
    | some source =>
      let message := (← liftM (valueOn item source)).toText item.forest
      let properties ← liftM (Property.all.mapM (propertyOf item m))
      return some ⟨severity, message, properties.filterMap id⟩

/-- The findings of items, in order. -/
def findingsOf (f : Forest) (m : Matcher) : List Node → Work ReportError (List Finding)
  | [] => return []
  | n :: rest => do
    Work.debug ("Processing item: " ++ f.shown n ++ ".")
    let found ← findingOf ⟨f, some n, ReportFunction.table⟩ m
    return found.toList ++ (← findingsOf f m rest)

/-- The tree of a report. A path that begins with markup is itself the report. -/
def treeOf (path : String) : Work ReportError (Forest × Node) := do
  let r ← get
  if startsWithMarkup path then liftM ((Forest.empty.addDocument none path).mapError ReportError.xml)
  else
    let text ← liftM ((r.workspace.read path).mapError ReportError.file)
    liftM ((Forest.empty.addDocument (some path) text).mapError ReportError.xml)

/-- The findings of the report at a path, in document order. -/
def findings (path : String) (m : Matcher) : Work ReportError (List Finding) := do
  let (f, root) ← treeOf path
  match ← liftM (valueOn ⟨f, some root, ReportFunction.table⟩ m.item) with
  | .nodes set =>
    Work.debug ("Found " ++ toString set.size ++ " items in " ++ path ++ ".")
    findingsOf f m (set.toList f)
  | _ =>
    Work.warn ("No items found in " ++ path)
    return []

end XPathAnnotator.Report
