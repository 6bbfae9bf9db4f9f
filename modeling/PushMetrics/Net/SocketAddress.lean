import PushMetrics.Number.Integer

/-!
# Socket addresses

A numeric host and a port in text: a dotted quad, or an IPv6 address in brackets with an optional zone,
then a colon and the port.
-/

namespace PushMetrics.Net

open Number

inductive Host where
  | v4 (octets : List Nat)
  | v6 (groups : List Nat) (zone : Nat)
deriving DecidableEq, Repr

structure SocketAddress where
  host : Host
  port : Nat
deriving DecidableEq, Repr

namespace SocketAddress

/-- A reader of a beginning of the text: what it read and what is left. -/
abbrev Reader (α : Type) := List Char → Option (α × List Char)

def hexDigit? (c : Char) : Option Nat :=
  if c.isDigit then some (c.toNat - '0'.toNat)
  else if 'a' ≤ c ∧ c ≤ 'f' then some (c.toNat - 'a'.toNat + 10)
  else if 'A' ≤ c ∧ c ≤ 'F' then some (c.toNat - 'A'.toNat + 10)
  else none

def mark (m : Char) : Reader Unit
  | c :: rest => if c = m then some ((), rest) else none
  | [] => none

/-- A decimal number below `2 ^ bits`. -/
def decimal (bits : Nat) : Reader Nat := fun cs =>
  let (digits, rest) := cs.span Char.isDigit
  if digits.isEmpty || twoPow bits ≤ digitsValue digits then none else some (digitsValue digits, rest)

/-- One number of a dotted quad, without leading zeros. -/
def octet : Reader Nat := fun cs =>
  let (digits, rest) := cs.span Char.isDigit
  if digits.isEmpty || (digits.length != 1 && digits.head? == some '0') || 256 ≤ digitsValue digits then none
  else some (digitsValue digits, rest)

def quad : Reader (List Nat) := fun cs => do
  let (a, cs) ← octet cs
  let (_, cs) ← mark '.' cs
  let (b, cs) ← octet cs
  let (_, cs) ← mark '.' cs
  let (c, cs) ← octet cs
  let (_, cs) ← mark '.' cs
  let (d, cs) ← octet cs
  some ([a, b, c, d], cs)

def group : Reader Nat := fun cs =>
  let (digits, rest) := cs.span fun c => (hexDigit? c).isSome
  if digits.isEmpty || 4 < digits.length then none
  else some (digits.foldl (fun n c => n * 16 + (hexDigit? c).getD 0) 0, rest)

/-- Something after a colon, which is not there before the first. -/
def separated {α : Type} (first : Bool) (r : Reader α) : Reader α := fun cs =>
  if first then r cs else (mark ':' cs).bind fun (_, cs) => r cs

/-- At most `limit` groups with colons between them; a dotted quad may stand for the last two. The flag
tells that it does. -/
def groups (first : Bool) : Nat → List Char → List Nat × Bool × List Char
  | 0, cs => ([], false, cs)
  | limit + 1, cs =>
    match (if 1 ≤ limit then separated first quad cs else none) with
    | some ([a, b, c, d], cs) => ([a * 256 + b, c * 256 + d], true, cs)
    | _ => match separated first group cs with
      | some (g, cs) =>
        let (gs, mixed, cs) := groups false limit cs
        (g :: gs, mixed, cs)
      | none => ([], false, cs)

/-- Eight groups, of which two colons may stand for one or more zeros. -/
def ipv6 : Reader (List Nat) := fun cs =>
  let (head, mixed, cs) := groups true 8 cs
  if head.length = 8 then some (head, cs)
  else if mixed then none
  else do
    let (_, cs) ← mark ':' cs
    let (_, cs) ← mark ':' cs
    let (tail, _, cs) := groups true (7 - head.length) cs
    some (head ++ List.replicate (8 - head.length - tail.length) 0 ++ tail, cs)

def zone : Reader Nat := fun cs => (mark '%' cs).bind fun (_, cs) => decimal 32 cs

def port? (cs : List Char) : Option Nat := do
  let (_, cs) ← mark ':' cs
  let (port, cs) ← decimal 16 cs
  if cs.isEmpty then some port else none

def ofText? (s : String) : Option SocketAddress :=
  match quad s.toList with
  | some (octets, cs) => (port? cs).map (⟨.v4 octets, ·⟩)
  | none => do
    let (_, cs) ← mark '[' s.toList
    let (groups, cs) ← ipv6 cs
    let (zone, cs) := (zone cs).getD (0, cs)
    let (_, cs) ← mark ']' cs
    (port? cs).map (⟨.v6 groups zone, ·⟩)

def isIpv6 (a : SocketAddress) : Bool :=
  match a.host with
  | .v4 _ => false
  | .v6 _ _ => true

end SocketAddress

end PushMetrics.Net
