import PlcScan.Text.Basic

namespace PlcScan.Utf8

abbrev Bytes := List UInt8

inductive Reason
  | invalidStart
  | truncated
  | invalidContinuation
  deriving DecidableEq, Repr

structure Fault where
  position : Nat
  length : Nat
  first : UInt8
  reason : Reason
  deriving DecidableEq, Repr

/--
What a leading byte settles: its payload, how many bytes follow, and between which bounds the
second byte lies. The bounds exclude overlong forms, surrogates and values above U+10FFFF.
-/
structure Lead where
  payload : Nat
  following : Nat
  low : UInt8
  high : UInt8

def lead? (b : UInt8) : Option Lead :=
  let n := b.toNat
  if n < 0x80 then some ⟨n, 0, 0x80, 0xbf⟩
  else if n < 0xc2 then none
  else if n < 0xe0 then some ⟨n - 0xc0, 1, 0x80, 0xbf⟩
  else if n = 0xe0 then some ⟨0x0, 2, 0xa0, 0xbf⟩
  else if n = 0xed then some ⟨0xd, 2, 0x80, 0x9f⟩
  else if n < 0xf0 then some ⟨n - 0xe0, 2, 0x80, 0xbf⟩
  else if n = 0xf0 then some ⟨0, 3, 0x90, 0xbf⟩
  else if n < 0xf4 then some ⟨n - 0xf0, 3, 0x80, 0xbf⟩
  else if n = 0xf4 then some ⟨4, 3, 0x80, 0x8f⟩
  else none

/--
Appends the payload of the following bytes to `value`; where they do not follow, how many of them
were right and what is wrong with the next.
-/
def follow : (count : Nat) → (low high : UInt8) → (value : Nat) → Bytes → Except (Nat × Reason) Nat
  | 0, _, _, value, _ => .ok value
  | _ + 1, _, _, _, [] => .error (0, .truncated)
  | count + 1, low, high, value, b :: rest =>
    if low ≤ b && b ≤ high then
      (follow count 0x80 0xbf (value * 64 + (b.toNat - 0x80)) rest).mapError
        fun (right, reason) => (right + 1, reason)
    else .error (0, .invalidContinuation)

def decodeFrom (position : Nat) : Bytes → Except Fault Text
  | [] => .ok []
  | b :: rest =>
    match lead? b with
    | none => .error ⟨position, 1, b, .invalidStart⟩
    | some lead =>
      match follow lead.following lead.low lead.high lead.payload rest with
      | .error (right, reason) => .error ⟨position, right + 1, b, reason⟩
      | .ok value =>
        (decodeFrom (position + lead.following + 1) (rest.drop lead.following)).map
          (Char.ofNat value :: ·)
termination_by bytes => bytes.length
decreasing_by simp only [List.length_drop, List.length_cons]; omega

def decode (bytes : Bytes) : Except Fault Text := decodeFrom 0 bytes

def encode (t : Text) : Bytes := t.flatMap String.utf8EncodeChar

def Reason.message : Reason → Text
  | .invalidStart => "invalid start byte".toList
  | .truncated => "unexpected end of data".toList
  | .invalidContinuation => "invalid continuation byte".toList

def Fault.message (f : Fault) : Text :=
  let run :=
    if f.length = 1 then
      "byte 0x".toList ++ Text.ofNatHex 2 f.first.toNat ++ " in position ".toList ++
        Text.ofNat f.position
    else
      "bytes in position ".toList ++ Text.ofNat f.position ++ ['-'] ++
        Text.ofNat (f.position + f.length - 1)
  "'utf-8' codec can't decode ".toList ++ run ++ ": ".toList ++ f.reason.message

end PlcScan.Utf8
