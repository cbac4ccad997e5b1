import Mathlib.Data.List.Basic

/-! The simplest of the zlib streams: one stored block between the header and the checksum.
Its bytes can be read back from any input that it begins. -/
namespace Libnmo.Lib.StoredStream

/-- The two sums of the checksum over the bytes. -/
def adlerSums (bytes : List UInt8) : Nat × Nat :=
  bytes.foldl (fun sums byte => ((sums.1 + byte.toNat) % 65521,(sums.2 + sums.1 + byte.toNat) % 65521)) (1,0)

def bigEndian (half : Nat) : List UInt8 := [.ofNat (half / 256),.ofNat half]

def checksum (bytes : List UInt8) : List UInt8 :=
  bigEndian (adlerSums bytes).2 ++ bigEndian (adlerSums bytes).1

/-- The length of the block and its complement. -/
def lengths (length : Nat) : List UInt8 :=
  [.ofNat length,.ofNat (length / 256),~~~ .ofNat length,~~~ .ofNat (length / 256)]

def stream (bytes : List UInt8) : List UInt8 :=
  [0x78,0x01,0x01] ++ lengths bytes.length ++ bytes ++ checksum bytes

/-- The stream of bytes that fit one block. -/
def deflate (bytes : List UInt8) : Option (List UInt8) :=
  if bytes.length < 65536 then some (stream bytes) else none

/-- The length that a stream declares. -/
def declared : List UInt8 → Nat
  | _ :: _ :: _ :: low :: high :: _ => low.toNat + 256 * high.toNat
  | _ => 0

/-- The bytes of the stream that the input begins with, if there is room for them. -/
def inflate (room : Nat) (input : List UInt8) : Option (List UInt8) :=
  let bytes := (input.drop 7).take (declared input)
  if bytes.length ≤ room ∧ stream bytes <+: input then some bytes else none

theorem declared_stream {bytes : List UInt8} (small : bytes.length < 65536) (rest : List UInt8) :
    declared (stream bytes ++ rest) = bytes.length := by
  have shown : declared (stream bytes ++ rest) =
      (UInt8.ofNat bytes.length).toNat + 256 * (UInt8.ofNat (bytes.length / 256)).toNat := rfl
  rw [shown,UInt8.toNat_ofNat',UInt8.toNat_ofNat']
  omega

theorem inflate_deflate {bytes packed : List UInt8} (made : deflate bytes = some packed) (rest : List UInt8)
    {room : Nat} (fits : bytes.length ≤ room) : inflate room (packed ++ rest) = some bytes := by
  rw [deflate] at made
  split at made
  · rename_i small
    cases made
    have block : ((stream bytes ++ rest).drop 7).take bytes.length = bytes := by
      have shown : (stream bytes ++ rest).drop 7 = bytes ++ checksum bytes ++ rest := rfl
      rw [shown,List.append_assoc,List.take_left]
    rw [inflate,declared_stream small,block]
    exact if_pos ⟨fits,List.prefix_append _ _⟩
  · cases made

end Libnmo.Lib.StoredStream

/-! A decoder of a byte stream that is called with input and room: it takes some of the
input, gives some output and says whether the stream has ended. It may have taken all of
its input and still hold output back. -/
namespace Libnmo.Lib

variable {σ : Type}

inductive DecodeStatus
  | ok | streamEnd | failed
  deriving DecidableEq

structure DecodeCall (σ : Type) where
  status : DecodeStatus
  consumed : Nat
  output : List UInt8
  state : σ

abbrev Decoder (σ : Type) := σ → List UInt8 → Nat → DecodeCall σ

/-- What a call does that is given input and room, after `taken` bytes of input and `given` bytes of output: it
goes on with the output, and without having come to its end it makes progress. -/
structure DecodeCall.Fits (reached : σ → Nat → Nat → Prop) (plain : List UInt8) (taken given : Nat)
    (input : List UInt8) (room : Nat) (call : DecodeCall σ) : Prop where
  state : reached call.state (taken + call.consumed) (given + call.output.length)
  consumed : call.consumed ≤ input.length
  room : call.output.length ≤ room
  output : call.output <+: plain.drop given
  outcome : call.status = .streamEnd ∧ given + call.output.length = plain.length ∨
    call.status = .ok ∧ (0 < call.consumed ∨ 0 < call.output.length)

/-- The decoder gives the plain bytes for the packed ones, however these are cut into calls. -/
structure Decodes (decoder : Decoder σ) (start : σ) (packed plain : List UInt8) where
  reached : σ → Nat → Nat → Prop
  start : reached start 0 0
  call : ∀ {state : σ} {taken given : Nat}, reached state taken given → ∀ {input : List UInt8} {room : Nat},
    0 < room → input ≠ [] → input <+: packed.drop taken →
    (decoder state input room).Fits reached plain taken given input room

namespace StoredStream
variable {bytes : List UInt8} {k : Nat}

theorem length_stream (bytes : List UInt8) : (stream bytes).length = bytes.length + 11 := by
  simp [stream,lengths,checksum,bigEndian]

/-- Before its last byte a stream gives nothing. -/
theorem inflate_take (small : bytes.length < 65536) (short : k < (stream bytes).length) (room : Nat) :
    inflate room ((stream bytes).take k) = none := by
  rw [inflate]
  refine if_neg fun ⟨_,began⟩ => ?_
  have size : ((stream bytes).take k).length = k := List.length_take_of_le (Nat.le_of_lt short)
  have fits := began.length_le
  rw [length_stream,List.length_take,List.length_drop,size] at fits
  rw [length_stream] at short
  obtain ⟨j,rfl⟩ : ∃ j, k = j + 5 := ⟨k - 5,by omega⟩
  have same : declared ((stream bytes).take (j + 5)) = declared (stream bytes ++ []) := by
    rw [List.append_nil]
    rfl
  rw [same,declared_stream small] at fits
  omega

theorem inflate_stream (small : bytes.length < 65536) : inflate (stream bytes).length (stream bytes) = some bytes := by
  have made : deflate bytes = some (stream bytes) := if_pos small
  have fits : bytes.length ≤ (stream bytes).length := by
    rw [length_stream]
    omega
  have whole := inflate_deflate made [] fits
  rwa [List.append_nil] at whole

/-- The decoder of one stored block: it takes all the input it is given, and knows the bytes when it has seen the
checksum. -/
def decoder : Decoder (List UInt8 × Nat) := fun (seen,given) input room =>
  let seen := seen ++ input
  let found := inflate seen.length seen
  let output := ((found.getD []).drop given).take room
  { status := if found.map List.length = some (given + output.length) then .streamEnd else .ok
    consumed := input.length
    output := output
    state := (seen,given + output.length) }

/-- Nothing is given before all is taken. -/
def decodes (small : bytes.length < 65536) : Decodes decoder ([],0) (stream bytes) bytes where
  reached state taken given := state = ((stream bytes).take taken,given) ∧ taken ≤ (stream bytes).length ∧
    (taken < (stream bytes).length → given = 0)
  start := ⟨rfl,Nat.zero_le _,fun _ => rfl⟩
  call := by
    rintro state taken given ⟨rfl,inside,early⟩ input room space some begins
    have size := begins.length_le
    rw [List.length_drop] at size
    have seen : (stream bytes).take taken ++ input = (stream bytes).take (taken + input.length) := by
      rw [List.take_add,← List.prefix_iff_eq_take.mp begins]
    have positive : 0 < input.length := List.length_pos_of_ne_nil some
    rw [early (by omega)]
    by_cases whole : taken + input.length = (stream bytes).length
    · have found : inflate (stream bytes).length (stream bytes) = Option.some bytes := inflate_stream small
      have all : (stream bytes).take taken ++ input = stream bytes := by
        rw [seen,whole,List.take_length]
      constructor
      · refine ⟨?_,?_,?_⟩
        · simp only [decoder,all]
          rw [whole,List.take_length]
        · exact Nat.le_of_eq whole
        · exact fun less => absurd less (by simp only [decoder]; omega)
      · exact Nat.le_refl _
      · simp only [decoder]
        exact List.length_take_le ..
      · simp only [decoder,all,found,Option.getD_some]
        exact List.take_prefix ..
      · simp only [decoder,all,found,Option.getD_some,Option.map_some]
        split <;> rename_i ended
        · exact .inl ⟨rfl,(Option.some.inj ended).symm⟩
        · exact .inr ⟨rfl,.inl positive⟩
    · have none : inflate ((stream bytes).take taken ++ input).length ((stream bytes).take taken ++ input) = none := by
        rw [seen]
        exact inflate_take small (by omega) _
      have empty : (decoder ((stream bytes).take taken,0) input room).output = [] := by
        simp only [decoder,none,Option.getD_none,List.drop_nil,List.take_nil]
      constructor
      · refine ⟨?_,by simp only [decoder]; omega,fun _ => ?_⟩
        · simp only [decoder,none]
          rw [seen]
        · rw [empty]
          rfl
      · exact Nat.le_refl _
      · simp only [decoder]
        exact List.length_take_le ..
      · rw [empty]
        exact List.nil_prefix
      · simp only [decoder,none]
        exact .inr ⟨rfl,.inl positive⟩

end StoredStream

end Libnmo.Lib
