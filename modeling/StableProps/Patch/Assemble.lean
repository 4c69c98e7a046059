import StableProps.Patch.Part

/-!
# Assembling a patch

The parts of several fixes become one list of edits in normal form: ascending, without overlap and
with at most one insertion at an offset. What several fixes have in common is done once. Texts
inserted at one offset are joined in the order they were given, imports first.
-/

namespace StableProps

namespace Patch

/-- Merges the entries for one declaration into the first of them. -/
def mergeEntries (entries : List ImportEntry) : List ImportEntry :=
  (entries.foldl (fun merged e => upsert (e.key, e.span) (fun
    | some f => f.merge e
    | none => e) merged) []).map (·.2)

/-- The change of an import declaration that is in the file. -/
def importReplacement? (e : ImportEntry) : Option Edit :=
  e.span.map fun (start, stop) => { start, stop, text := e.render }

/-- The insertion of an import declaration that is not in the file. -/
def importInsertion? (s : Source) (e : ImportEntry) : Option Insertion :=
  match e.span with
  | some _ => none
  | none => some (s.importInsertion e.render)

/-- The two insertions that make a body into a block holding declarations and the expression. -/
def wrapEdits (w : BodyWrap) (declarations : List String) : List Edit :=
  let inner := w.indent ++ w.unit
  let lines := String.join (declarations.map fun d => inner ++ d ++ "\n")
  [{ start := w.start, stop := w.start, text := "\x7b\n" ++ lines ++ inner ++ "return " },
   { start := w.stop, stop := w.stop, text := ";\n" ++ w.indent ++ "\x7d" }]

/-- The edits for all insertions into bodies that become blocks. -/
def wrapped (insertions : List Insertion) : List Edit :=
  let wraps := insertions.filterMap fun i => i.wrap.map fun w => (w, i.text)
  (distinctBy (fun (w, _) => (w.start, w.stop)) wraps).flatMap fun (w, _) =>
    wrapEdits w ((wraps.filter fun (v, _) => v.start = w.start ∧ v.stop = w.stop).map (·.2))

/-- The edits for all plain insertions, one for each offset. -/
def inserted (insertions : List Insertion) : List Edit :=
  let plain := insertions.filter (·.wrap.isNone)
  (distinctBy (·.offset) plain).map fun i =>
    { start := i.offset, stop := i.offset,
      text := String.join ((plain.filter (·.offset == i.offset)).map (·.text)) }

/-- Edits are ordered by where they start; insertions come before replacements. -/
def before (e f : Edit) : Bool :=
  e.start < f.start || (e.start == f.start && (e.isInsertion || !f.isInsertion))

/-- Puts an edit in front of the first of several ordered edits that it may come before. -/
def place (e : Edit) : List Edit → List Edit
  | [] => [e]
  | f :: rest => if before e f then e :: f :: rest else f :: place e rest

/-- Edits in order; those of equal rank stay as they were given. -/
def ordered (edits : List Edit) : List Edit := edits.foldr place []

/-- Puts an edit in front of others; an insertion is joined with an insertion at the same offset. -/
def joinFront (e : Edit) : List Edit → List Edit
  | [] => [e]
  | f :: rest =>
    if e.isInsertion && f.isInsertion && e.start == f.start then
      { f with text := e.text ++ f.text } :: rest
    else e :: f :: rest

/-- Joins neighbouring insertions at one offset. -/
def join (edits : List Edit) : List Edit := edits.foldr joinFront []

/-- The first two neighbours that overlap. -/
def overlap? : List Edit → Option (Edit × Edit)
  | e :: f :: rest => if f.start < e.stop then some (e, f) else overlap? (f :: rest)
  | _ => none

/-- All edits in normal form, before they are checked. -/
def edits (s : Source) (parts : List FixParts) : List Edit :=
  let entries := (mergeEntries (parts.flatMap (·.imports))).filter (·.changesFile)
  let insertions := distinct
    (entries.filterMap (importInsertion? s) ++ parts.flatMap (·.insertions))
  let replacements := distinct
    (entries.filterMap importReplacement? ++ parts.flatMap (·.replacements))
  join (ordered (replacements ++ wrapped insertions ++ inserted insertions))

/-- The patch made of the parts of several fixes. -/
def assemble (s : Source) (parts : List FixParts) : Except Failure (List Edit) :=
  let result := edits s parts
  match overlap? result with
  | some (e, f) => .error (.overlap f.start f.stop e.start e.stop)
  | none => .ok result

end Patch

end StableProps
