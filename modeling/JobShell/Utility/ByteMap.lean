import JobShell.Utility.Basic

/-!
`tr`: replacing, deleting and squeezing bytes. A set of bytes is written as a list with
ranges (`a-z`), classes (`[:upper:]`) and backslash escapes.
-/
namespace JobShell.Utility

/-- A byte of a set's text; one that was escaped has no further meaning. -/
structure SetByte where
  byte : UInt8
  escaped : Bool := false

def isOctalByte (b : UInt8) : Bool := 48 ≤ b && b ≤ 55

/-- What a letter behind a backslash stands for in a set. -/
def setEscape (b : UInt8) : UInt8 :=
  match Char.ofNat b.toNat with
  | 'a' => 7
  | 'b' => 8
  | 'f' => 12
  | 'n' => 10
  | 'r' => 13
  | 't' => 9
  | 'v' => 11
  | _ => b

def setBytes : List UInt8 → List SetByte
  | [] => []
  | [b] => [{ byte := b }]
  | b :: c :: rest =>
    if b ≠ 92 then { byte := b } :: setBytes (c :: rest)
    else if isOctalByte c then
      let more := (rest.take 2).takeWhile isOctalByte
      let value := (c :: more).foldl (fun n d => 8 * n + (d.toNat - 48)) 0
      { byte := UInt8.ofNat value, escaped := true } :: setBytes (rest.drop more.length)
    else { byte := setEscape c, escaped := true } :: setBytes rest
termination_by text => text.length

def byteRange (low high : UInt8) : List UInt8 :=
  (List.range (high.toNat + 1 - low.toNat)).map fun i => UInt8.ofNat (low.toNat + i)

def allBytes : List UInt8 := byteRange 0 255

def byteClass? (name : String) : Option (List UInt8) :=
  let lower := byteRange 97 122
  let upper := byteRange 65 90
  let digit := byteRange 48 57
  match name with
  | "lower" => some lower
  | "upper" => some upper
  | "digit" => some digit
  | "alpha" => some (upper ++ lower)
  | "alnum" => some (digit ++ upper ++ lower)
  | "blank" => some [9, 32]
  | "space" => some [9, 10, 11, 12, 13, 32]
  | "cntrl" => some (byteRange 0 31 ++ [127])
  | "print" => some (byteRange 32 126)
  | "graph" => some (byteRange 33 126)
  | "punct" => some (byteRange 33 47 ++ byteRange 58 64 ++ byteRange 91 96 ++ byteRange 123 126)
  | "xdigit" => some (digit ++ byteRange 65 70 ++ byteRange 97 102)
  | _ => none

/-- The class that a text starts with, as `[:name:]`, and how many bytes it takes up. -/
def classAhead? (text : List SetByte) : Option (List UInt8 × Nat) :=
  let plain := text.map fun u => if u.escaped then '\x00' else Char.ofNat u.byte.toNat
  match plain with
  | '[' :: ':' :: rest =>
    let name := rest.takeWhile Char.isAlpha
    if (rest.drop name.length).take 2 = [':', ']'] then
      (byteClass? (String.ofList name)).map fun members => (members, name.length + 4)
    else none
  | _ => none

/-- The members of a set, in order. A range the wrong way round is an error. -/
def setMembers : List SetByte → Except String (List UInt8)
  | [] => .ok []
  | u :: rest =>
    match classAhead? (u :: rest) with
    | some (members, length) => do
      return members ++ (← setMembers (rest.drop (length - 1)))
    | none =>
      match rest with
      | { byte := 45, escaped := false } :: high :: rest => do
        if high.byte < u.byte then
          let low := String.singleton (Char.ofNat u.byte.toNat)
          let top := String.singleton (Char.ofNat high.byte.toNat)
          .error s!"range-endpoints of '{low}-{top}' are in reverse collating sequence order"
        else
          let more ← setMembers rest
          return byteRange u.byte high.byte ++ more
      | rest => do
        let more ← setMembers rest
        return u.byte :: more
termination_by text => text.length
decreasing_by all_goals (simp_wf; try omega)

def setOf (text : String) : Except String (List UInt8) := setMembers (setBytes text.toUTF8.toList)

/-- What becomes of the bytes of the input. -/
structure ByteMap where
  deleted : UInt8 → Bool := fun _ => false
  image : UInt8 → UInt8 := id
  squeezed : UInt8 → Bool := fun _ => false

/-- Maps the members of one set to those of another by position. The last member of the
shorter target stands for all that are missing, and the last of repeated sources counts. -/
def imageOf (source target : List UInt8) (b : UInt8) : UInt8 :=
  match target.getLast? with
  | none => b
  | some last =>
    match (source.zipIdx.reverse.find? fun e => e.1 == b) with
    | some (_, i) => target[i]?.getD last
    | none => b

/-- One piece of input; `last` is the byte written last. -/
def ByteMap.apply (t : ByteMap) (last : Option UInt8) (data : ByteArray) :
    Option UInt8 × ByteArray :=
  data.foldl (fun (last, out) b =>
    if t.deleted b then (last, out)
    else
      let c := t.image b
      if t.squeezed c && last == some c then (last, out) else (some c, out.push c))
    (last, ByteArray.empty)

def outputBuffer : Nat := 4096

/-- How far the input has come: the byte written last and what was not written yet. -/
structure Mapping where
  last : Option UInt8 := none
  pending : ByteArray := .empty

def mapInput (utility : String) (t : ByteMap) : Program Status :=
  Program.iterate (fun (state : Mapping) => do
    match ← Program.retry (.read 0 outputBuffer) with
    | .error e =>
      tell s!"{utility}: read error: {e.sentence}\n"
      return .inr 1
    | .ok data =>
      if data.isEmpty then return .inr (← deliver utility state.pending 0)
      else
        let (last, out) := t.apply state.last data
        let pending := state.pending ++ out
        if pending.size < outputBuffer then return .inl { last, pending }
        else
          let status ← deliver utility pending 0
          if status = 0 then return .inl { last, pending := .empty } else return .inr 1) {}

def operandProblem? (request : Request) : Option String :=
  let delete := request.has 'd'
  let squeeze := request.has 's'
  let most := if delete && !squeeze then 1 else 2
  match request.operands, request.operands[most]? with
  | [], _ => some "missing operand"
  | [one], _ =>
    if delete == squeeze then
      some (s!"missing operand after '{one}'\n" ++
        (if delete then "Two strings must be given when both deleting and squeezing repeats."
          else "Two strings must be given when translating."))
    else none
  | operands, some extra =>
    some (s!"extra operand '{extra}'" ++
      (if operands.length = 2 then
        "\nOnly one string may be given when deleting without squeezing repeats."
      else ""))
  | _, none => none

def byteMap? (request : Request) (one : List UInt8) (two? : Option (List UInt8)) :
    Except String ByteMap :=
  let complement := request.has 'c' || request.has 'C'
  let one := if complement then allBytes.filter fun b => !one.contains b else one
  let squeeze := request.has 's'
  match request.has 'd', two? with
  | true, none => .ok { deleted := one.contains }
  | false, none => .ok { squeezed := one.contains }
  | true, some two => .ok { deleted := one.contains, squeezed := two.contains }
  | false, some two =>
    if two.isEmpty && !request.has 't' then
      .error "when not truncating set1, string2 must be non-empty"
    else
      let one := if request.has 't' then one.take two.length else one
      .ok { image := imageOf one two, squeezed := fun b => squeeze && two.contains b }

/-- The utility `tr [-cdst] set [set]` -/
def tr (utility : String) (args : Arguments) : Program Status :=
  withOptions utility "" "cCdst" args 1 fun request =>
    match operandProblem? request with
    | some problem => misuse utility problem 1
    | none =>
      let byteMap : Except String ByteMap := do
        let one ← setOf (request.operands.headD "")
        byteMap? request one (← request.operands[1]?.mapM setOf)
      match byteMap with
      | .error problem => do
        tell s!"{utility}: {problem}\n"
        return 1
      | .ok byteMap => mapInput utility byteMap

end JobShell.Utility
