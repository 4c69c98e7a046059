import StableProps.Pattern.Basic

/-!
# Reading patterns

The usual notation of patterns: brackets for sets, parentheses for groups, a bar for choices and
signs for repetition. A text that breaks a rule of the notation has no pattern.
-/

namespace StableProps.Pattern

/-- The unread part of a pattern's text and the groups met so far. -/
structure Unread where
  rest : List Char
  /-- Number of the next group. -/
  nextGroup : Nat := 1
  /-- Groups that are not closed yet. -/
  openGroups : List Nat := []
  /-- Names of groups. -/
  names : List (String × Nat) := []
  /-- Groups asked for by conditions. -/
  asked : List Nat := []

/-- A step of reading, which can fail. -/
abbrev Reading := StateT Unread Option

namespace Reading

/-- The text was not a pattern. -/
def fail : Reading α := fun _ => none

/-- The next character without taking it. -/
def peek : Reading (Option Char) := do return (← get).rest.head?

/-- Takes the next character. -/
def next : Reading Char := fun u =>
  match u.rest with
  | [] => none
  | c :: cs => some (c, { u with rest := cs })

/-- Takes a character if it comes next. -/
def accept (c : Char) : Reading Bool := fun u =>
  match u.rest with
  | d :: cs => some (if c == d then (true, { u with rest := cs }) else (false, u))
  | [] => some (false, u)

/-- Takes a character that must come next. -/
def expect (c : Char) : Reading Unit := do
  if !(← accept c) then fail

/-- Takes a run of characters. -/
def takeWhile (test : Char → Bool) : Reading (List Char) := fun u =>
  some (u.rest.takeWhile test, { u with rest := u.rest.dropWhile test })

/-- Takes what stands before a character, and the character. -/
def upTo (c : Char) : Reading (List Char) := do
  let run ← takeWhile (· != c)
  expect c
  return run

end Reading

open Reading

/-- Whether a character is a digit below eight. -/
def isOctal (c : Char) : Bool := '0' ≤ c && c ≤ '7'

/-- The value of a digit in any base up to sixteen. -/
def digitValue? (c : Char) : Option Nat :=
  if c.isDigit then some (c.toNat - '0'.toNat)
  else if 'a' ≤ c && c ≤ 'f' then some (c.toNat - 'a'.toNat + 10)
  else if 'A' ≤ c && c ≤ 'F' then some (c.toNat - 'A'.toNat + 10)
  else none

/-- The number written by digits in a base. -/
def numberOf (base : Nat) (digits : List Char) : Nat :=
  digits.foldl (fun n c => base * n + (digitValue? c).getD 0) 0

/-- The character given by exactly `n` hexadecimal digits. -/
def hexChar (n : Nat) : Reading Char := do
  let digits := (← get).rest.take n
  if digits.length < n || digits.any (digitValue? · |>.isNone) then fail
  modify fun u => { u with rest := u.rest.drop n }
  return Char.ofNat (numberOf 16 digits)

/-- The class a letter behind a backslash stands for, and whether it is the opposite. -/
def classOf? (c : Char) : Option CharItem :=
  [('d', CharItem.classOf .digit false), ('D', .classOf .digit true), ('w', .classOf .word false),
   ('W', .classOf .word true), ('s', .classOf .space false), ('S', .classOf .space true)].lookup c

/-- The control character a letter behind a backslash stands for. -/
def control? (c : Char) : Option Char :=
  [('a', '\x07'), ('f', '\x0c'), ('n', '\n'), ('r', '\r'), ('t', '\t'), ('v', '\x0b'),
   ('\\', '\\')].lookup c

/-- A character given by its number, the letter behind the backslash having been read. -/
def numbered? (c : Char) : Option (Reading Char) :=
  [('x', hexChar 2), ('u', hexChar 4), ('U', hexChar 8)].lookup c

/-- The set of one character. -/
def single (flags : PatternFlags) (c : Char) : Pattern :=
  .one ⟨[.range c c], false, flags.ignoreCase, flags.ascii⟩

/-- What a backslash introduces inside a set. -/
def setEscape : Reading CharItem := do
  let c ← next
  let one (c : Char) : CharItem := .range c c
  if let some item := classOf? c then return item
  if c == 'b' then return one '\x08'
  if let some d := control? c then return one d
  if let some number := numbered? c then return one (← number)
  if isOctal c then
    let more := ((← get).rest.takeWhile isOctal).take 2
    modify fun u => { u with rest := u.rest.drop more.length }
    let n := numberOf 8 (c :: more)
    if n > 0o377 then fail
    return one (Char.ofNat n)
  if c.isDigit || c.isAlpha then fail
  return one c

/-- One end of a range, or a class. -/
def setItem : Reading CharItem := do
  let c ← next
  if c == '\\' then setEscape else return .range c c

/-- The items of a set up to its bracket, which counts as an item if it comes first. -/
def setItems : Nat → List CharItem → Reading (List CharItem)
  | 0, _ => fail
  | fuel + 1, items => do
    if !items.isEmpty && (← accept ']') then return items
    let item ← setItem
    if ← accept '-' then
      if ← accept ']' then return items ++ [item, .range '-' '-']
      match item, ← setItem with
      | .range first _, .range last _ =>
        if last.toNat < first.toNat then fail
        setItems fuel (items ++ [.range first last])
      | _, _ => fail
    else setItems fuel (items ++ [item])

/-- A set whose bracket was read. -/
def set (flags : PatternFlags) : Reading Pattern := do
  let negated ← accept '^'
  let items ← setItems ((← get).rest.length + 1) []
  return .one ⟨items, negated, flags.ignoreCase, flags.ascii⟩

/-- A reference to a group that is closed. -/
def reference (flags : PatternFlags) (index : Nat) : Reading Pattern := do
  let u ← get
  if index == 0 || u.nextGroup ≤ index || u.openGroups.contains index then fail
  return .same index flags.ignoreCase

/-- Digits behind a backslash: a character by its octal number, or a reference. -/
def digitEscape (flags : PatternFlags) (c : Char) : Reading Pattern := do
  let rest := (← get).rest
  let take (n : Nat) : Reading Unit := modify fun u => { u with rest := u.rest.drop n }
  if c == '0' then
    let more := (rest.takeWhile isOctal).take 2
    take more.length
    return single flags (Char.ofNat (numberOf 8 more))
  match rest with
  | d :: e :: _ =>
    if isOctal c && isOctal d && isOctal e then
      take 2
      let n := numberOf 8 [c, d, e]
      if n > 0o377 then fail
      return single flags (Char.ofNat n)
    else if d.isDigit then
      take 1
      reference flags (numberOf 10 [c, d])
    else reference flags (numberOf 10 [c])
  | d :: _ =>
    if d.isDigit then
      take 1
      reference flags (numberOf 10 [c, d])
    else reference flags (numberOf 10 [c])
  | [] => reference flags (numberOf 10 [c])

/-- What a backslash introduces outside of sets. -/
def escape (flags : PatternFlags) : Reading Pattern := do
  let c ← next
  if let some item := classOf? c then return .one ⟨[item], false, flags.ignoreCase, flags.ascii⟩
  if c == 'A' then return .anchor .start
  if c == 'Z' then return .anchor .textEnd
  if c == 'b' then return .anchor (.boundary flags.ascii false)
  if c == 'B' then return .anchor (.boundary flags.ascii true)
  if let some d := control? c then return single flags d
  if let some number := numbered? c then return single flags (← number)
  if c.isDigit then digitEscape flags c
  else if c.isAlpha then fail
  else return single flags c

/-- Skips comments and, in the verbose notation, white space. -/
def skipIgnored (flags : PatternFlags) : Nat → Reading Unit
  | 0 => return ()
  | fuel + 1 => do
    match (← get).rest with
    | '(' :: '?' :: '#' :: _ =>
      let _ ← upTo ')'
      skipIgnored flags fuel
    | c :: _ =>
      if flags.verbose && " \t\n\r\x0b\x0c".contains c then
        let _ ← next
        skipIgnored flags fuel
      else if flags.verbose && c == '#' then
        let _ ← takeWhile (· != '\n')
        skipIgnored flags fuel
    | [] => return ()

/-- Least and greatest count in braces, whose opening one was taken, and the rest behind them. -/
def braces? (cs : List Char) : Option (Nat × Option Nat × List Char) :=
  let low := cs.takeWhile Char.isDigit
  let rest := cs.dropWhile Char.isDigit
  let (high, rest) := match rest with
    | ',' :: more => (more.takeWhile Char.isDigit, more.dropWhile Char.isDigit)
    | _ => (low, rest)
  match cs, rest with
  | '\x7d' :: _, _ => none
  | _, '\x7d' :: rest =>
    some (numberOf 10 low, if high.isEmpty then none else some (numberOf 10 high), rest)
  | _, _ => none

/-- The counts of a repetition sign, if one comes next. -/
def counts : Reading (Option (Nat × Option Nat)) := do
  match (← get).rest with
  | '*' :: _ => let _ ← next; return some (0, none)
  | '+' :: _ => let _ ← next; return some (1, none)
  | '?' :: _ => let _ ← next; return some (0, some 1)
  | '\x7b' :: cs =>
    match braces? cs with
    | some (least, most, rest) =>
      modify fun u => { u with rest }
      if most.any (· < least) then fail
      return some (least, most)
    | none => return none
  | _ => return none

/-- A pattern with the repetition sign that follows it. Tests of a place cannot be repeated. -/
def quantified (flags : PatternFlags) (p : Pattern) : Reading Pattern := do
  skipIgnored flags ((← get).rest.length + 1)
  match ← counts with
  | none => return p
  | some (least, most) =>
    if let .anchor _ := p then fail
    if ← accept '?' then return .times p least most false
    if ← accept '+' then return .atomic (.times p least most true)
    return .times p least most true

/-- Switches a flag. -/
def switchFlag (flags : PatternFlags) (c : Char) (on : Bool) : Option PatternFlags :=
  if c == 'i' then some { flags with ignoreCase := on }
  else if c == 'm' then some { flags with multiline := on }
  else if c == 's' then some { flags with dotAll := on }
  else if c == 'x' then some { flags with verbose := on }
  else if c == 'a' && on then some { flags with ascii := true }
  else if c == 'u' && on then some { flags with ascii := false }
  else none

/-- Switches several flags. -/
def switchAll (flags : PatternFlags) (cs : List Char) (on : Bool) : Reading PatternFlags :=
  match cs.foldlM (fun f c => switchFlag f c on) flags with
  | some f => return f
  | none => fail

/-- The name of a group. -/
def groupName (close : Char) : Reading String := do
  let name ← upTo close
  match name with
  | [] => fail
  | c :: _ =>
    if c.isDigit || !name.all Text.isWordChar then fail else return String.ofList name

/-- Gives a new group its number. -/
def openGroup (name : Option String) : Reading Nat := do
  let u ← get
  let index := u.nextGroup
  if name.any fun n => (u.names.lookup n).isSome then fail
  StateT.set { u with
    nextGroup := index + 1
    openGroups := index :: u.openGroups
    names := (name.toList.map (·, index)) ++ u.names }
  return index

/-- Closes a group. -/
def closeGroup (index : Nat) : Reading Unit :=
  modify fun u => { u with openGroups := u.openGroups.filter (· != index) }

mutual

/-- Choices up to a closing parenthesis or the end. -/
def choices (flags : PatternFlags) : Nat → Reading Pattern
  | 0 => fail
  | fuel + 1 => do
    let p ← sequence flags fuel
    if ← accept '|' then return .alt p (← choices flags fuel) else return p

/-- A sequence up to a bar, a closing parenthesis or the end. -/
def sequence (flags : PatternFlags) : Nat → Reading Pattern
  | 0 => fail
  | fuel + 1 => do
    skipIgnored flags ((← get).rest.length + 1)
    match ← peek with
    | none => return .empty
    | some '|' => return .empty
    | some ')' => return .empty
    | some _ =>
      let p ← quantified flags (← atom flags fuel)
      return .seq p (← sequence flags fuel)

/-- A pattern without repetition signs. -/
def atom (flags : PatternFlags) : Nat → Reading Pattern
  | 0 => fail
  | fuel + 1 => do
    let c ← next
    if c == '\\' then escape flags
    else if c == '[' then set flags
    else if c == '.' then
      let lineBreak : List CharItem := if flags.dotAll then [] else [.range '\n' '\n']
      return .one ⟨lineBreak, true, false, false⟩
    else if c == '^' then return .anchor (if flags.multiline then .lineStart else .start)
    else if c == '$' then return .anchor (if flags.multiline then .lineEnd else .end)
    else if c == '(' then parenthesis flags fuel
    else if c == '*' || c == '+' || c == '?' then fail
    else if c == '\x7b' && (braces? (← get).rest).isSome then fail
    else return single flags c

/-- What follows an opening parenthesis. -/
def parenthesis (flags : PatternFlags) : Nat → Reading Pattern
  | 0 => fail
  | fuel + 1 => do
    if !(← accept '?') then return ← numberedGroup flags none fuel
    let c ← next
    if c == ':' then inner flags fuel
    else if c == 'P' then
      if ← accept '<' then
        let name ← groupName '>'
        numberedGroup flags (some name) fuel
      else
        expect '='
        let name ← groupName ')'
        match (← get).names.lookup name with
        | some index => reference flags index
        | none => fail
    else if c == '=' then return .ahead (← inner flags fuel) false
    else if c == '!' then return .ahead (← inner flags fuel) true
    else if c == '>' then return .atomic (← inner flags fuel)
    else if c == '<' then
      let negated ← accept '!'
      if !negated then expect '='
      let p ← inner flags fuel
      match p.fixedWidth? with
      | some width => return .behind p width negated
      | none => fail
    else if c == '(' then conditional flags fuel
    else
      let on := c :: (← takeWhile Char.isAlpha)
      let (on, off) ← if c == '-' then pure ([], on.drop 1)
        else if ← accept '-' then pure (on, ← takeWhile Char.isAlpha)
        else pure (on, [])
      if on.isEmpty && off.isEmpty then fail
      expect ':'
      let flags ← switchAll flags on true
      inner (← switchAll flags off false) fuel

/-- The inside of a group and its closing parenthesis. -/
def inner (flags : PatternFlags) : Nat → Reading Pattern
  | 0 => fail
  | fuel + 1 => do
    let p ← choices flags fuel
    expect ')'
    return p

/-- A group that can be referred to. -/
def numberedGroup (flags : PatternFlags) (name : Option String) : Nat → Reading Pattern
  | 0 => fail
  | fuel + 1 => do
    let index ← openGroup name
    let p ← inner flags fuel
    closeGroup index
    return .group index p

/-- A choice that depends on whether a group has matched. -/
def conditional (flags : PatternFlags) : Nat → Reading Pattern
  | 0 => fail
  | fuel + 1 => do
    let name ← upTo ')'
    let index ← match (← get).names.lookup (String.ofList name) with
      | some index => pure index
      | none => if !name.isEmpty && name.all Char.isDigit then pure (numberOf 10 name) else fail
    if index == 0 then fail
    modify fun u => { u with asked := index :: u.asked }
    let p ← sequence flags fuel
    let q ← if ← accept '|' then sequence flags fuel else pure .empty
    expect ')'
    return .ifGroup index p q

end

/-- Flags that stand at the very front of a pattern. -/
def leadingFlags : Nat → PatternFlags → Reading PatternFlags
  | 0, flags => return flags
  | fuel + 1, flags => do
    match (← get).rest with
    | '(' :: '?' :: rest =>
      let letters := rest.takeWhile Char.isAlpha
      match letters, rest.drop letters.length with
      | _ :: _, ')' :: rest =>
        let flags ← switchAll flags letters true
        modify fun u => { u with rest }
        leadingFlags fuel flags
      | _, _ => return flags
    | _ => return flags

/-- Reads a whole pattern. -/
def whole (flags : PatternFlags) : Reading Pattern := do
  let size := (← get).rest.length
  let flags ← leadingFlags size flags
  let p ← choices flags (6 * size + 6)
  let u ← get
  if !u.rest.isEmpty || u.asked.any (u.nextGroup ≤ ·) then fail
  return p

/-- The pattern that a text stands for. -/
def read? (flags : PatternFlags) (text : String) : Option Pattern :=
  ((whole flags).run { rest := text.toList }).map (·.1)

end StableProps.Pattern
