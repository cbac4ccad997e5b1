import Libnmo.Core.Error
import Libnmo.Lib.StreamDecoder
import Mathlib.Data.List.Infix

/-! The reading side of the compressed wrapper. A read asks the inner stream for bytes
when none are left to decode, and ends when the inner stream has none, whether or not
the decoder still holds output back. -/
namespace Libnmo.Io
open Core Lib

variable {σ : Type}

/-- The inner stream by the answers of its reads: bytes, at most a buffer of them, or an error. An answer without
bytes, and every one after the last, is the end. -/
structure CompressedIo (σ : Type) where
  inner : List (Except ErrorCode (List UInt8))
  stream : σ
  nextIn : List UInt8 := []
  initialized : Bool := true

/-- A status without a code is `NMO_OK`. -/
structure ReadReturn (σ : Type) where
  bytes : List UInt8
  status : Option ErrorCode
  io : CompressedIo σ

/-- What the loop knows before it decodes. -/
inductive Refill (σ : Type)
  | failed (code : ErrorCode) (io : CompressedIo σ)
  | atEnd (io : CompressedIo σ)
  | ready (io : CompressedIo σ)

def refill (io : CompressedIo σ) : Refill σ :=
  if io.nextIn ≠ [] then .ready io
  else match io.inner with
    | [] => .atEnd io
    | .error code :: answers => .failed code { io with inner := answers }
    | .ok bytes :: answers =>
      if bytes = [] then .atEnd { io with inner := answers }
      else .ready { io with inner := answers, nextIn := bytes }

/-- The call of `inflate`. -/
def CompressedIo.decoded (io : CompressedIo σ) (call : DecodeCall σ) : CompressedIo σ :=
  { io with stream := call.state, nextIn := io.nextIn.drop call.consumed }

/-- The loop, as long as there is room; it does not end if there are not rounds enough. -/
def compressedIoRounds (inflate : Decoder σ) : Nat → Nat → CompressedIo σ → Option (ReadReturn σ)
  | 0,_,_ => none
  | rounds + 1,availOut,io =>
    if availOut = 0 then some ⟨[],none,io⟩
    else match refill io with
      | .failed code io => some ⟨[],some code,io⟩
      | .atEnd io => some ⟨[],none,io⟩
      | .ready io =>
        let call := inflate io.stream io.nextIn availOut
        match call.status with
        | .streamEnd => some ⟨call.output,none,io.decoded call⟩
        | .failed => some ⟨call.output,some .decompressionFailed,io.decoded call⟩
        | .ok => (compressedIoRounds inflate rounds (availOut - call.output.length) (io.decoded call)).map fun later =>
            { later with bytes := call.output ++ later.bytes }

/-- The bytes that the inner stream still has. -/
def CompressedIo.ahead (io : CompressedIo σ) : List UInt8 := (io.inner.map fun answer => answer.toOption.getD []).flatten

/-- More rounds than bytes that can be taken or given. -/
def CompressedIo.rounds (io : CompressedIo σ) (availOut : Nat) : Nat := availOut + io.nextIn.length + io.ahead.length + 1

/-- The room is the size as a `uInt`. -/
def compressedIoRead (inflate : Decoder σ) (size : Nat) (io : CompressedIo σ) : Option (ReadReturn σ) :=
  if io.initialized then compressedIoRounds inflate (io.rounds (size % 2 ^ 32)) (size % 2 ^ 32) io
  else some ⟨[],some .invalidState,io⟩

/-- Reads one after the other, up to one that fails, with what they return together. -/
def readEach (inflate : Decoder σ) : List Nat → CompressedIo σ → Option (ReadReturn σ)
  | [],io => some ⟨[],none,io⟩
  | size :: sizes,io => (compressedIoRead inflate size io).bind fun first => match first.status with
    | some code => some ⟨first.bytes,some code,first.io⟩
    | none => (readEach inflate sizes first.io).map fun later => { later with bytes := first.bytes ++ later.bytes }

section Reading
variable {inflate : Decoder σ} {start : σ} {packed plain : List UInt8} {io : CompressedIo σ} {given : Nat}

/-- The bytes that are left of the packed stream are those ahead of the decoder, which has given so many of the
plain ones. -/
structure Ready (laws : Decodes inflate start packed plain) (io : CompressedIo σ) (given : Nat) : Prop where
  initialized : io.initialized = true
  chunks : ∀ answer ∈ io.inner, ∃ bytes, answer = .ok bytes ∧ bytes ≠ []
  within : given ≤ plain.length
  reached : ∃ taken, laws.reached io.stream taken given ∧ io.nextIn ++ io.ahead = packed.drop taken

/-- Whenever the loop meets the end of the inner stream with room left, the decoder has given everything. -/
def EndsDone (inflate : Decoder σ) (plain : List UInt8) : Nat → Nat → CompressedIo σ → Nat → Prop
  | 0,_,_,_ => True
  | rounds + 1,availOut,io,given =>
    availOut ≠ 0 → match refill io with
      | .failed _ _ => True
      | .atEnd _ => given = plain.length
      | .ready io =>
        let call := inflate io.stream io.nextIn availOut
        call.status = .ok →
          EndsDone inflate plain rounds (availOut - call.output.length) (io.decoded call) (given + call.output.length)

/-- A refill keeps what is left, and with nothing left it is at the end. -/
theorem refill_cases (laws : Decodes inflate start packed plain) (ready : Ready laws io given) :
    refill io = .atEnd io ∨ ∃ next, refill io = .ready next ∧ Ready laws next given ∧ next.nextIn ≠ [] ∧
      next.stream = io.stream ∧ next.nextIn.length + next.ahead.length = io.nextIn.length + io.ahead.length := by
  rw [refill]
  by_cases left : io.nextIn = []
  · rw [if_neg (not_not.mpr left)]
    cases answers : io.inner with
    | nil => exact .inl rfl
    | cons answer rest =>
      obtain ⟨bytes,rfl,some⟩ := ready.chunks answer (by rw [answers]; exact List.mem_cons_self ..)
      have whole : io.ahead = bytes ++ ({ io with inner := rest, nextIn := bytes } : CompressedIo σ).ahead := by
        rw [CompressedIo.ahead,answers]
        rfl
      refine .inr ⟨{ io with inner := rest, nextIn := bytes },if_neg some,?_,some,rfl,?_⟩
      · obtain ⟨taken,reached,ahead⟩ := ready.reached
        refine ⟨ready.initialized,fun other member => ready.chunks other ?_,ready.within,taken,reached,?_⟩
        · rw [answers]
          exact List.mem_cons_of_mem _ member
        · rw [← ahead,left,whole]
          rfl
      · rw [left,whole,List.length_append]
        exact (Nat.zero_add _).symm
  · rw [if_pos left]
    exact .inr ⟨io,rfl,ready,left,rfl,rfl⟩

theorem ready_call (laws : Decodes inflate start packed plain) (ready : Ready laws io given) (some : io.nextIn ≠ [])
    {room : Nat} (space : 0 < room) {call : DecodeCall σ} (made : inflate io.stream io.nextIn room = call) :
    Ready laws (io.decoded call) (given + call.output.length) ∧ call.consumed ≤ io.nextIn.length ∧
      call.output.length ≤ room ∧ call.output <+: plain.drop given ∧
      (call.status = .streamEnd ∧ given + call.output.length = plain.length ∨
        call.status = .ok ∧ (0 < call.consumed ∨ 0 < call.output.length)) := by
  obtain ⟨taken,reached,ahead⟩ := ready.reached
  have fits := laws.call reached space some ⟨io.ahead,ahead⟩
  rw [made] at fits
  have size := fits.output.length_le
  rw [List.length_drop] at size
  have within := ready.within
  refine ⟨⟨ready.initialized,ready.chunks,by omega,taken + call.consumed,fits.state,?_⟩,
    fits.consumed,fits.room,fits.output,fits.outcome⟩
  rw [← List.drop_drop,← ahead,List.drop_append_of_le_length fits.consumed]
  rfl

/-- What the loop returns is the next part of the plain stream, and as much of it as there is room for if the loop
ends at no end of the inner stream with output held back. -/
theorem rounds_read (laws : Decodes inflate start packed plain) (rounds : Nat) {availOut : Nat}
    (ready : Ready laws io given) (enough : io.rounds availOut ≤ rounds) :
    ∃ bytes after, compressedIoRounds inflate rounds availOut io = some ⟨bytes,none,after⟩ ∧
      Ready laws after (given + bytes.length) ∧ bytes.length ≤ availOut ∧ bytes <+: plain.drop given ∧
      (EndsDone inflate plain rounds availOut io given ↔ bytes = (plain.drop given).take availOut) := by
  induction rounds generalizing availOut io given with
  | zero =>
    rw [CompressedIo.rounds] at enough
    omega
  | succ rounds ih =>
    rw [CompressedIo.rounds] at enough
    rw [compressedIoRounds,EndsDone]
    by_cases full : availOut = 0
    · rw [if_pos full]
      exact ⟨[],io,rfl,ready,Nat.zero_le _,List.nil_prefix,by simp [full]⟩
    rw [if_neg full]
    obtain ended | ⟨next,refilled,ready,some,stream,same⟩ := refill_cases laws ready
    · rw [ended]
      refine ⟨[],io,rfl,ready,Nat.zero_le _,List.nil_prefix,?_⟩
      have within := ready.within
      constructor
      · intro done
        have all := done full
        rw [List.drop_eq_nil_of_le (by omega),List.take_nil]
      · intro empty _
        have length := congrArg List.length empty
        rw [List.length_take,List.length_drop,List.length_nil] at length
        omega
    · rw [refilled]
      dsimp only
      generalize made : inflate next.stream next.nextIn availOut = call
      obtain ⟨after,consumed,room,output,⟨ended,all⟩ | ⟨going,progress⟩⟩ :=
        ready_call laws ready some (Nat.pos_of_ne_zero full) made
      · rw [ended]
        refine ⟨call.output,next.decoded call,rfl,after,room,output,fun _ => ?_,fun _ _ going => nomatch going⟩
        have whole : call.output = plain.drop given := output.eq_of_length (by rw [List.length_drop]; omega)
        rw [← whole,List.take_of_length_le room]
      · rw [going]
        dsimp only
        have shorter : (next.decoded call).rounds (availOut - call.output.length) ≤ rounds := by
          have left : (next.decoded call).nextIn.length = next.nextIn.length - call.consumed := List.length_drop ..
          have ahead : (next.decoded call).ahead = next.ahead := rfl
          rw [CompressedIo.rounds,left,ahead]
          omega
        obtain ⟨bytes,last,ran,lastReady,fits,begins,exactly⟩ := ih after shorter
        rw [ran]
        have split : plain.drop given = call.output ++ plain.drop (given + call.output.length) := by
          rw [← List.drop_drop]
          exact List.prefix_append_drop output
        refine ⟨call.output ++ bytes,last,rfl,?_,?_,?_,?_⟩
        · rw [List.length_append,← Nat.add_assoc]
          exact lastReady
        · rw [List.length_append]
          omega
        · rw [split]
          exact (List.prefix_append_right_inj _).mpr begins
        · rw [split,List.take_append,List.take_of_length_le room,List.append_cancel_left_eq,← exactly]
          exact ⟨fun done => done full rfl,fun done _ _ => done⟩

/-- A read returns all it is asked for, or all that is left. -/
theorem read_whole (laws : Decodes inflate start packed plain) (ready : Ready laws io given) (size : Nat) :
    ∃ bytes after, compressedIoRead inflate size io = some ⟨bytes,none,after⟩ ∧ Ready laws after (given + bytes.length) ∧
      (((size < 2 ^ 32 ∨ plain.length - given ≤ size % 2 ^ 32) ∧
        EndsDone inflate plain (io.rounds (size % 2 ^ 32)) (size % 2 ^ 32) io given) ↔
          bytes = (plain.drop given).take size) := by
  obtain ⟨bytes,after,ran,next,fits,begins,exactly⟩ := rounds_read laws _ ready (Nat.le_refl (io.rounds (size % 2 ^ 32)))
  refine ⟨bytes,after,(if_pos ready.initialized).trans ran,next,?_⟩
  have enough (most : size < 2 ^ 32 ∨ plain.length - given ≤ size % 2 ^ 32) :
      (plain.drop given).take (size % 2 ^ 32) = (plain.drop given).take size := by
    rcases most with small | rest
    · rw [Nat.mod_eq_of_lt small]
    · have less : size % 2 ^ 32 ≤ size := Nat.mod_le ..
      rw [List.take_of_length_le (by rw [List.length_drop]; exact rest),
        List.take_of_length_le (by rw [List.length_drop]; omega)]
  constructor
  · rintro ⟨most,done⟩
    rw [exactly.mp done,enough most]
  · intro whole
    have length := congrArg List.length whole
    rw [List.length_take,List.length_drop] at length
    have most : size < 2 ^ 32 ∨ plain.length - given ≤ size % 2 ^ 32 := by
      by_contra less
      omega
    exact ⟨most,exactly.mpr (whole.trans (enough most).symm)⟩

end Reading

/-- A stream opened for reading, whose inner stream hands out its bytes in chunks. -/
def openedForReading (start : σ) (chunks : List (List UInt8)) : CompressedIo σ where
  inner := chunks.map .ok
  stream := start

/-- After every one of the reads, what they have returned is the stream up to the bytes asked for. -/
def Delivers (inflate : Decoder σ) (plain : List UInt8) (sizes : List Nat) (io : CompressedIo σ) : Prop :=
  ∀ done, done <+: sizes → ∃ after, readEach inflate done io = some ⟨plain.take done.sum,none,after⟩

/-- Each read asks for less than 4 GiB, or more of its 32 bits than is left; and none comes to the end of the inner
stream while the decoder holds output back. -/
def ReadsEndDone (inflate : Decoder σ) (plain : List UInt8) : List Nat → CompressedIo σ → Nat → Prop
  | [],_,_ => True
  | size :: sizes,io,given =>
    ((size < 2 ^ 32 ∨ plain.length - given ≤ size % 2 ^ 32) ∧
      EndsDone inflate plain (io.rounds (size % 2 ^ 32)) (size % 2 ^ 32) io given) ∧
    ∀ first, compressedIoRead inflate size io = some first →
      ReadsEndDone inflate plain sizes first.io (given + first.bytes.length)

section Streaming
variable {inflate : Decoder σ} {start : σ} {packed plain : List UInt8} {io : CompressedIo σ} {given : Nat}

theorem readEach_cons {size : Nat} {sizes : List Nat} {bytes : List UInt8} {after : CompressedIo σ}
    (ran : compressedIoRead inflate size io = some ⟨bytes,none,after⟩) :
    readEach inflate (size :: sizes) io =
      (readEach inflate sizes after).map fun later => { later with bytes := bytes ++ later.bytes } := by
  rw [readEach,ran]
  rfl

theorem reads_delivered (laws : Decodes inflate start packed plain) (sizes : List Nat) (ready : Ready laws io given) :
    Delivers inflate (plain.drop given) sizes io ↔ ReadsEndDone inflate plain sizes io given := by
  induction sizes generalizing io given with
  | nil =>
    refine ⟨fun _ => trivial,fun _ done none => ?_⟩
    rw [List.prefix_nil.mp none]
    exact ⟨io,rfl⟩
  | cons size sizes ih =>
    obtain ⟨bytes,after,ran,next,exactly⟩ := read_whole laws ready size
    have later := ih next
    have parted (whole : bytes = (plain.drop given).take size) (count : Nat) :
        (plain.drop given).take (size + count) = bytes ++ (plain.drop (given + bytes.length)).take count := by
      have length := congrArg List.length whole
      rw [List.length_take,List.length_drop] at length
      rw [List.take_add,← whole,List.drop_drop]
      by_cases rest : size ≤ plain.length - given
      · rw [length,Nat.min_eq_left rest]
      · rw [List.drop_eq_nil_of_le (by omega),List.drop_eq_nil_of_le (by omega)]
    rw [ReadsEndDone]
    constructor
    · intro delivers
      have whole : bytes = (plain.drop given).take size := by
        obtain ⟨last,first⟩ := delivers [size] (List.prefix_append [size] sizes)
        rw [readEach_cons ran,readEach] at first
        have same := congrArg (Option.map ReadReturn.bytes) first
        simpa using same
      refine ⟨exactly.mpr whole,fun first made => ?_⟩
      obtain rfl := Option.some.inj (ran.symm.trans made)
      refine later.mp fun done begins => ?_
      obtain ⟨last,all⟩ := delivers (size :: done) (List.cons_prefix_cons.mpr ⟨rfl,begins⟩)
      rw [readEach_cons ran,List.sum_cons,parted whole] at all
      obtain ⟨rest,read,joined⟩ := Option.map_eq_some_iff.mp all
      obtain ⟨found,ended,_⟩ := ReadReturn.mk.inj joined
      rw [List.append_cancel_left_eq] at found
      refine ⟨rest.io,?_⟩
      rw [read,← found,← ended]
    · rintro ⟨fine,rest⟩
      have whole := exactly.mp fine
      have others := later.mpr (rest _ ran)
      intro done begins
      cases done with
      | nil => exact ⟨io,rfl⟩
      | cons asked done =>
        obtain ⟨rfl,others'⟩ := List.cons_prefix_cons.mp begins
        obtain ⟨last,read⟩ := others done others'
        refine ⟨last,?_⟩
        rw [readEach_cons ran,read,List.sum_cons,parted whole]
        rfl

/-- The reads return the stream in full exactly where none ends at the end of the inner stream with output held
back, whatever the chunks of the inner stream. -/
theorem delivers_iff (laws : Decodes inflate start packed plain) (chunks : List (List UInt8))
    (some : ∀ chunk ∈ chunks, chunk ≠ []) (whole : chunks.flatten = packed) (sizes : List Nat) :
    Delivers inflate plain sizes (openedForReading start chunks) ↔
      ReadsEndDone inflate plain sizes (openedForReading start chunks) 0 := by
  have ahead : (openedForReading start chunks).ahead = packed := by
    rw [← whole,CompressedIo.ahead,openedForReading,List.map_map]
    exact congrArg List.flatten (List.map_id chunks)
  have ready : Ready laws (openedForReading start chunks) 0 := by
    refine ⟨rfl,?_,Nat.zero_le _,0,laws.start,ahead⟩
    intro answer member
    obtain ⟨chunk,listed,rfl⟩ := List.mem_map.mp member
    exact ⟨chunk,rfl,some chunk listed⟩
  exact reads_delivered laws sizes ready

end Streaming

/-- A stream of three bytes, in one chunk. -/
def threeBytes : CompressedIo (List UInt8 × Nat) := openedForReading ([],0) [StoredStream.stream [97,98,99]]

theorem threeBytes_at_once : Delivers StoredStream.decoder [97,98,99] [3] threeBytes :=
  (delivers_iff (StoredStream.decodes (by decide)) [StoredStream.stream [97,98,99]] (by decide) (by decide) [3]).mpr
    ⟨⟨.inl (by decide),fun _ _ => fun going => nomatch going⟩,fun _ _ => trivial⟩

/-- Read one by one, all but the first byte are lost. -/
theorem threeBytes_singly : ¬ ∀ (plain : List UInt8)
    (_ : Decodes StoredStream.decoder ([],0) (StoredStream.stream plain) plain) (sizes : List Nat),
    Delivers StoredStream.decoder plain sizes (openedForReading ([],0) [StoredStream.stream plain]) := by
  intro all
  obtain ⟨after,read⟩ := all [97,98,99] (StoredStream.decodes (by decide)) [1,1,1] [1,1,1] (List.prefix_refl _)
  have lost : (readEach StoredStream.decoder [1,1,1] threeBytes).map ReadReturn.bytes = some [97] := by decide +kernel
  rw [threeBytes,read] at lost
  have all : ([97,98,99] : List UInt8) = [97] := Option.some.inj lost
  exact absurd all (by decide)

end Libnmo.Io
