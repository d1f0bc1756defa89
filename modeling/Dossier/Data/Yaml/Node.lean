import Dossier.Data.Yaml.Token

/-!
# YAML nodes

The tokens of a text, read as nested sequences and mappings of scalars. What is left out between two
marks is an empty plain scalar. In a block a key has to be there, be it empty, before its value;
in brackets it may be left out with its mark. Nodes are not nested more than `maxNesting` levels deep.
-/

namespace Dossier.Data.Yaml

/-- A node of a document. -/
inductive Node where
  | scalar (text : String) (plain : Bool)
  /-- A scalar in quotes some of whose codes are no characters. -/
  | codes (codes : List Nat)
  | sequence (items : List Node)
  | mapping (entries : List (Node × Node))
deriving Inhabited

namespace Node

/-- The node that stands for nothing. -/
def empty : Node := .scalar "" true

/-- How many sequences and mappings may be nested. -/
def maxNesting : Nat := 487

/-! ## Tokens -/

/-- A token stands where it cannot stand, or there is none. -/
def unexpected {α : Type} : List Token → Except Fault α
  | .fault f :: _ => .error f
  | _ => .error .malformed

/-- One level of nesting less, if there is one left. -/
def deeper : Nat → Except Fault Nat
  | 0 => .error (.tooDeep .any)
  | room + 1 => .ok room

/-- Tokens after which the value in a block is empty. -/
def endsBlockValue : List Token → Bool
  | .key :: _ | .value :: _ | .blockEnd :: _ | [] => true
  | _ => false

/-- Tokens after which an item of a block sequence is empty. -/
def endsBlockItem : List Token → Bool
  | .entry :: _ | .blockEnd :: _ | [] => true
  | _ => false

/-- Tokens after which an item of a sequence without a block of its own is empty. -/
def endsFlatItem : List Token → Bool
  | .entry :: _ | .key :: _ | .value :: _ | .blockEnd :: _ | [] => true
  | _ => false

/-- Tokens after which the part of a pair in brackets is empty. -/
def endsPart (close : Token) : List Token → Bool
  | [] => true
  | t :: _ => t == .comma || t == close

/-- Tokens after which a key in brackets is empty. -/
def endsKey (close : Token) (ts : List Token) : Bool :=
  ts.head? == some .value || endsPart close ts

/-! ## Nodes -/

mutual

/-- The node that begins here, with room for some levels of nesting. In a block, `flat` allows a
sequence without a block of its own. -/
def read (fuel room : Nat) (block flat : Bool) (ts : List Token) :
    Except Fault (Node × List Token) :=
  match fuel with
  | 0 => .error .malformed
  | fuel + 1 =>
    match ts with
    | .scalar text plain :: ts => .ok (.scalar text plain, ts)
    | .codes cs :: ts => .ok (.codes cs, ts)
    | .sequenceStart :: ts => do flowItems fuel (← deeper room) true [] ts
    | .mappingStart :: ts => do flowPairs fuel (← deeper room) true [] ts
    | .entry :: _ => if flat then do flatItems fuel (← deeper room) [] ts else unexpected ts
    | .blockSequence :: ts =>
      if block then do blockItems fuel (← deeper room) [] ts else unexpected ts
    | .blockMapping :: ts =>
      if block then do blockPairs fuel (← deeper room) [] ts else unexpected ts
    | ts => unexpected ts

/-- The items of a block sequence up to its end. -/
def blockItems (fuel room : Nat) (done : List Node) (ts : List Token) :
    Except Fault (Node × List Token) :=
  match fuel with
  | 0 => .error .malformed
  | fuel + 1 =>
    match ts with
    | .entry :: ts =>
      if endsBlockItem ts then blockItems fuel room (empty :: done) ts
      else do
        let (item, ts) ← read fuel room true false ts
        blockItems fuel room (item :: done) ts
    | .blockEnd :: ts => .ok (.sequence done.reverse, ts)
    | ts => unexpected ts

/-- The items of a sequence that shares the block of the mapping around it. -/
def flatItems (fuel room : Nat) (done : List Node) (ts : List Token) :
    Except Fault (Node × List Token) :=
  match fuel with
  | 0 => .error .malformed
  | fuel + 1 =>
    match ts with
    | .entry :: ts =>
      if endsFlatItem ts then flatItems fuel room (empty :: done) ts
      else do
        let (item, ts) ← read fuel room true false ts
        flatItems fuel room (item :: done) ts
    | ts => .ok (.sequence done.reverse, ts)

/-- A part of a block mapping, after its mark. -/
def blockPart (fuel room : Nat) (ts : List Token) : Except Fault (Node × List Token) :=
  match fuel with
  | 0 => .error .malformed
  | fuel + 1 => if endsBlockValue ts then .ok (empty, ts) else read fuel room true true ts

/-- The pairs of a block mapping up to its end. -/
def blockPairs (fuel room : Nat) (done : List (Node × Node)) (ts : List Token) :
    Except Fault (Node × List Token) :=
  match fuel with
  | 0 => .error .malformed
  | fuel + 1 =>
    match ts with
    | .blockEnd :: ts => .ok (.mapping done.reverse, ts)
    | .key :: ts => do
      let (key, ts) ← blockPart fuel room ts
      match ts with
      | .value :: ts =>
        let (value, ts) ← blockPart fuel room ts
        blockPairs fuel room ((key, value) :: done) ts
      | ts => blockPairs fuel room ((key, empty) :: done) ts
    | ts => unexpected ts

/-- A key in brackets and its value, after the mark of the key. -/
def flowPair (fuel room : Nat) (close : Token) (ts : List Token) :
    Except Fault (Node × Node × List Token) :=
  match fuel with
  | 0 => .error .malformed
  | fuel + 1 => do
    let (key, ts) ← if endsKey close ts then .ok (empty, ts) else read fuel room false false ts
    match ts with
    | .value :: ts =>
      if endsPart close ts then return (key, empty, ts)
      else
        let (value, ts) ← read fuel room false false ts
        return (key, value, ts)
    | ts => return (key, empty, ts)

/-- The items of a sequence in brackets up to its end. -/
def flowItems (fuel room : Nat) (first : Bool) (done : List Node) (ts : List Token) :
    Except Fault (Node × List Token) :=
  match fuel with
  | 0 => .error .malformed
  | fuel + 1 =>
    match first, ts with
    | _, .sequenceEnd :: ts => .ok (.sequence done.reverse, ts)
    | true, ts => flowItem fuel room done ts
    | false, .comma :: ts =>
      if ts.head? = some .sequenceEnd then .ok (.sequence done.reverse, ts.tail)
      else flowItem fuel room done ts
    | false, ts => unexpected ts

/-- An item of a sequence in brackets, and those after it. A key makes a mapping of one pair. -/
def flowItem (fuel room : Nat) (done : List Node) (ts : List Token) :
    Except Fault (Node × List Token) :=
  match fuel with
  | 0 => .error .malformed
  | fuel + 1 =>
    match ts with
    | .key :: ts => do
      let (key, value, ts) ← flowPair fuel (← deeper room) .sequenceEnd ts
      flowItems fuel room false (.mapping [(key, value)] :: done) ts
    | ts => do
      let (item, ts) ← read fuel room false false ts
      flowItems fuel room false (item :: done) ts

/-- The pairs of a mapping in brackets up to its end. -/
def flowPairs (fuel room : Nat) (first : Bool) (done : List (Node × Node)) (ts : List Token) :
    Except Fault (Node × List Token) :=
  match fuel with
  | 0 => .error .malformed
  | fuel + 1 =>
    match first, ts with
    | _, .mappingEnd :: ts => .ok (.mapping done.reverse, ts)
    | true, ts => flowMember fuel room done ts
    | false, .comma :: ts =>
      if ts.head? = some .mappingEnd then .ok (.mapping done.reverse, ts.tail)
      else flowMember fuel room done ts
    | false, ts => unexpected ts

/-- A pair of a mapping in brackets, and those after it. -/
def flowMember (fuel room : Nat) (done : List (Node × Node)) (ts : List Token) :
    Except Fault (Node × List Token) :=
  match fuel with
  | 0 => .error .malformed
  | fuel + 1 =>
    match ts with
    | .key :: ts => do
      let (key, value, ts) ← flowPair fuel room .mappingEnd ts
      flowPairs fuel room false ((key, value) :: done) ts
    | ts => do
      let (key, ts) ← read fuel room false false ts
      flowPairs fuel room false ((key, empty) :: done) ts

end

/-! ## Documents -/

/-- The node of a text with at most one document; none if there is no document. -/
def ofTokens? (ts : List Token) : Except Fault (Option Node) :=
  let fuel := 4 * ts.length + 4
  let finish (node : Node) (ts : List Token) : Except Fault (Option Node) :=
    match ts.dropWhile (· == .documentEnd) with
    | [] => .ok (some node)
    | ts => unexpected ts
  match ts with
  | [] => .ok none
  | .documentStart :: ts => match ts with
    | [] | .documentStart :: _ | .documentEnd :: _ => finish empty ts
    | ts => do
      let (node, ts) ← read fuel maxNesting true false ts
      finish node ts
  | ts => do
    let (node, ts) ← read fuel maxNesting true false ts
    finish node ts

end Node

end Dossier.Data.Yaml
