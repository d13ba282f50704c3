import Resync.Prepared
import Resync.Leaf.Primitive
import Resync.Leaf.Matcher
import Resync.Rule.Bespoke

namespace Resync

/-- A parser of some output type. Combinators build parsers from leaves and from each other, and
    read their children at the types that these have. -/
abbrev AnyParser : Type := (t : Ty) × Parser t

namespace Parser

variable {s t u : Ty}

def char (expected : Char) : Parser .char :=
  ⟨.leaf (Primitive.char expected).leaf⟩

def satisfy (label : String) (p : Char → Bool) : Parser .char :=
  ⟨.leaf (Primitive.satisfy label p).leaf⟩

def literal (expected : String) : Parser .text :=
  ⟨.leaf (Primitive.literal expected).leaf⟩

def anyChar : Parser .char :=
  ⟨.leaf Primitive.anyChar.leaf⟩

def digits : Parser .text :=
  ⟨.leaf Primitive.digits.leaf⟩

def someDigits : Parser .text :=
  ⟨.leaf Primitive.someDigits.leaf⟩

def endOfInput : Parser .unit :=
  ⟨.leaf Primitive.endOfInput.leaf⟩

def upTo (stop : String) : Parser .text :=
  ⟨.leaf (Primitive.upTo stop).leaf⟩

def byte (expected : UInt8) : Parser .byte :=
  ⟨.leaf (Primitive.byte expected).leaf⟩

def anyByte : Parser .byte :=
  ⟨.leaf Primitive.anyByte.leaf⟩

/-- A leaf with a matcher, a failure and a recoverer of choice. -/
def matching (m : Matcher) (label failure : String) (recoverer : Option Recoverer) :
    Parser .text :=
  ⟨.leaf (m.leaf label failure recoverer)⟩

/-- A leaf that commits what encloses it, and at which recovery may resume. -/
def safe (parser : Parser t) : Parser t :=
  ⟨.safe parser.grammar⟩

/-- Converts the output. -/
def map (parser : Parser s) (result : Ty) (f : s.Val → result.Val) : Parser result :=
  ⟨.branch "map" (.map s result f) [parser.grammar]⟩

/-- Converts the output, or rejects it at the start of the match. -/
def tryMap (parser : Parser s) (result : Ty) (f : s.Val → Except String result.Val) :
    Parser result :=
  ⟨.branch "try_map" (.tryMap s result f) [parser.grammar]⟩

/-- Repeats a parser until it fails. -/
def many (item : Parser t) : Parser (.list t) :=
  ⟨.branch "many0" (.many t) [item.grammar]⟩

/-- The first alternative that succeeds. -/
def first (alternatives : List (Parser t)) : Parser t :=
  ⟨.branch "first_success" (.firstSuccess t) (alternatives.map Parser.grammar)⟩

/-- Runs parsers in order and combines what the requested slots hold. -/
def sequence (label : String) (items : List AnyParser) (requests : List (Nat × Ty)) (result : Ty)
    (f : Ty.Vals (requests.map Prod.snd) → result.Val) : Parser result :=
  ⟨.branch label (.combine requests result f) (items.map (·.2.grammar))⟩

/-- Combines the outputs of two parsers in order. -/
def map2 (a : Parser s) (b : Parser t) (result : Ty) (f : s.Val → t.Val → result.Val) :
    Parser result :=
  sequence "map2" [⟨s, a⟩, ⟨t, b⟩] [(0, s), (1, t)] result fun (x, y, ()) => f x y

/-- Combines the outputs of three parsers in order. -/
def map3 (a : Parser s) (b : Parser t) (c : Parser u) (result : Ty)
    (f : s.Val → t.Val → u.Val → result.Val) : Parser result :=
  sequence "map3" [⟨s, a⟩, ⟨t, b⟩, ⟨u, c⟩] [(0, s), (1, t), (2, u)] result
    fun (x, y, z, ()) => f x y z

/-- The second of two parsers in order. -/
def preceded (lead : Parser s) (parser : Parser t) : Parser t :=
  sequence "preceded" [⟨s, lead⟩, ⟨t, parser⟩] [(1, t)] t fun (x, ()) => x

/-- The first of two parsers in order. -/
def terminated (parser : Parser t) (trail : Parser s) : Parser t :=
  sequence "terminated" [⟨t, parser⟩, ⟨s, trail⟩] [(0, t)] t fun (x, ()) => x

/-- The second of three parsers in order. -/
def delimited (opening : Parser s) (parser : Parser t) (closing : Parser u) : Parser t :=
  sequence "delimited" [⟨s, opening⟩, ⟨t, parser⟩, ⟨u, closing⟩] [(1, t)] t fun (x, ()) => x

/-- A branch with a rule of its own. -/
def branch (label : String) (rule : Rule) (items : List AnyParser) : Parser rule.resultType :=
  ⟨.branch label rule (items.map (·.2.grammar))⟩

/-- The parser of a name in scope. -/
def named (t : Ty) (name : String) : Parser t :=
  ⟨.named name⟩

/-- Builds a parser once and shares it in the body under a name. -/
def sharing (name : String) (definition : Parser s) (body : Parser t) : Parser t :=
  ⟨.sharing name definition.grammar body.grammar⟩

/-- A parser that is known to its own definition under a name. -/
def recursive (name : String) (definition : Parser t) : Parser t :=
  ⟨.recursive name definition.grammar⟩

/-- A parser that is built when it is first needed. -/
def deferred (definition : Parser t) : Parser t :=
  ⟨.deferred definition.grammar⟩

end Parser

end Resync
