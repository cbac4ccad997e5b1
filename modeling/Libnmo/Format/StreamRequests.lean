import Libnmo.Format.StreamReader

/-! Requests for the bytes of a stream. A request that is not refused takes the bytes ahead
through the window, however often it has to be filled, or the data breaks off for good. -/
namespace Libnmo.Format
open Core Lib Lib.Cursor

variable {io : StreamIo} {zlib : InflateLibrary} {reader t u : StreamReader io zlib}

/-- What a request leaves alone. -/
structure SameObjects (reader t : StreamReader io zlib) : Prop where
  header : t.header = reader.header
  header1 : t.header1 = reader.header1
  nextObjectIndex : t.nextObjectIndex = reader.nextObjectIndex
  objectsTotal : t.objectsTotal = reader.objectsTotal

theorem SameObjects.refl (reader : StreamReader io zlib) : SameObjects reader reader := ⟨rfl,rfl,rfl,rfl⟩

theorem SameObjects.trans (first : SameObjects reader t) (second : SameObjects t u) : SameObjects reader u where
  header := second.header.trans first.header
  header1 := second.header1.trans first.header1
  nextObjectIndex := second.nextObjectIndex.trans first.nextObjectIndex
  objectsTotal := second.objectsTotal.trans first.objectsTotal

/-- The bytes lie ahead of the one reader, and of the other no more. -/
structure Draws (reader : StreamReader io zlib) (taken : List UInt8) (t : StreamReader io zlib) : Prop where
  gives : Gives sourceNext reader.window taken t.window
  counted : t.uncompressedRemaining + taken.length = reader.uncompressedRemaining
  small : SmallBuffer t.source
  same : SameObjects reader t

theorem Draws.refl (small : SmallBuffer reader.source) : Draws reader [] reader :=
  ⟨gives_nothing _,rfl,small,.refl reader⟩

theorem Draws.trans {a b : List UInt8} (first : Draws reader a t) (second : Draws t b u) : Draws reader (a ++ b) u where
  gives := first.gives.trans second.gives
  counted := by
    rw [List.length_append,← first.counted,← second.counted]
    omega
  small := second.small
  same := first.same.trans second.same

/-- The data breaks off before it has `size` bytes, and no more of it follows. -/
structure BreaksOff (reader : StreamReader io zlib) (size : Nat) (stop : Stop) (t : StreamReader io zlib) : Prop where
  short : ∃ taken s, taken.length < size ∧ Gives sourceNext reader.window taken ⟨[],s⟩ ∧
    sourceNext.run s = (.error stop,t.source)
  empty : t.window.held = []
  dry : Dry sourceNext t.source
  same : SameObjects reader t

theorem Draws.breaksOff {a : List UInt8} {size : Nat} {stop : Stop} (first : Draws reader a t)
    (second : BreaksOff t size stop u) : BreaksOff reader (a.length + size) stop u := by
  obtain ⟨taken,s,few,gives,failed⟩ := second.short
  refine ⟨⟨a ++ taken,s,?_,first.gives.trans gives,failed⟩,second.empty,second.dry,first.same.trans second.same⟩
  rw [List.length_append]
  exact Nat.add_lt_add_left few _

theorem length_held (reader : StreamReader io zlib) : reader.window.held.length = reader.available := List.length_drop

theorem readerFillOutput_emptied (reader : StreamReader io zlib) :
    readerFillOutput.run reader.emptied = match sourceNext.run reader.source with
      | (.ok bytes,source) => (.ok (),{ reader with source := source, out := bytes, outPos := 0 })
      | (.error stop,source) => (.error stop,{ reader with source := source, out := [], outPos := 0 }) := by
  rw [readerFillOutput]
  cases finished : reader.source.streamFinished with
  | true =>
    rw [sourceNext_finished finished]
    exact if_pos finished
  | false =>
    rw [sourceNext_fills finished]
    refine (if_neg ?_).trans rfl
    rw [StreamReader.emptied,finished]
    exact Bool.false_ne_true

/-- The output buffer has something afterwards, or the data breaks off where it was empty. -/
theorem readerChunk_cases (size : Nat) (small : SmallBuffer reader.source) :
    (∃ t, (readerChunk size).run reader = (.ok (min size t.available),t) ∧ t.available ≠ 0 ∧ Draws reader [] t) ∨
    ∃ stop t, (readerChunk size).run reader = (.error stop,t) ∧ ∀ size' > 0, BreaksOff reader size' stop t := by
  rw [readerChunk,Action.bind_ok _ (Action.read_apply _ _)]
  by_cases none : reader.available = 0
  · have held : reader.window.held = [] := List.length_eq_zero_iff.mp ((length_held reader).trans none)
    have window : reader.window = ⟨[],reader.source⟩ := by
      rw [← held]
      rfl
    have filled := readerFillOutput_emptied reader
    rw [if_pos none]
    rcases sourceNext_cases small with ⟨bytes,source,ran,some,small⟩ | ⟨stop,source,ran,dry⟩
    · rw [ran] at filled
      rw [Action.bind_ok _ ((Action.bind_ok _ (Action.update_apply _ _)).trans filled),
        Action.bind_ok _ (Action.read_apply _ _)]
      refine .inl ⟨_,rfl,fun empty => some (List.length_eq_zero_iff.mp empty),?_,rfl,small,⟨rfl,rfl,rfl,rfl⟩⟩
      rw [window]
      exact gives_piece ran
    · rw [ran] at filled
      rw [Action.bind_error _ ((Action.bind_ok _ (Action.update_apply _ _)).trans filled)]
      refine .inr ⟨stop,_,rfl,fun size' positive => ⟨⟨[],reader.source,positive,?_,ran⟩,rfl,dry,⟨rfl,rfl,rfl,rfl⟩⟩⟩
      rw [window]
      exact gives_nothing _
  · rw [if_neg none,Action.bind_ok _ (Action.pure_apply _ _),Action.bind_ok _ (Action.read_apply _ _)]
    exact .inl ⟨reader,rfl,none,.refl small⟩

theorem draws_passed {chunk : Nat} (small : SmallBuffer reader.source) (inside : chunk ≤ reader.available)
    (within : chunk ≤ reader.uncompressedRemaining) :
    (slice reader.out reader.outPos chunk).length = chunk ∧
      Draws reader (slice reader.out reader.outPos chunk) (reader.passed chunk) := by
  have length : (slice reader.out reader.outPos chunk).length = chunk := by
    rw [slice,List.length_take,List.length_drop]
    exact Nat.min_eq_left inside
  refine ⟨length,?_,?_,small,⟨rfl,rfl,rfl,rfl⟩⟩
  · have split : reader.window = ⟨slice reader.out reader.outPos chunk ++ (reader.passed chunk).window.held,reader.source⟩ := by
      rw [StreamReader.window,StreamReader.window,StreamReader.passed,slice,← List.drop_drop]
      dsimp only
      rw [List.take_append_drop]
    rw [split]
    exact gives_held ..
  · rw [length]
    exact Nat.sub_add_cancel within

theorem readerSkipLoop_copies (fuel size : Nat) :
    (readerSkipLoop fuel size : Run (StreamReader io zlib) Unit) = (readerCopyLoop fuel size >>= fun _ => pure ()) := by
  induction fuel generalizing size with
  | zero => rfl
  | succ fuel ih =>
    apply Action.eq_of_run
    intro reader
    rw [readerSkipLoop,readerCopyLoop]
    by_cases done : size = 0
    · rw [if_pos done,if_pos done]
      rfl
    · rw [if_neg done,if_neg done]
      cases ran : (readerChunk size).run reader with
      | mk outcome t =>
        cases outcome with
        | error stop => rw [Action.bind_error _ ran,Action.bind_error _ (Action.bind_error _ ran)]
        | ok chunk =>
          rw [Action.bind_ok _ ran,Action.bind_ok _ (Action.update_apply _ _),ih]
          rw [Action.bind_apply,Action.bind_apply,Action.bind_ok _ ran,Action.bind_ok _ (Action.read_apply _ _),
            Action.bind_ok _ (Action.update_apply _ _),Action.bind_apply]
          rcases (readerCopyLoop fuel (size - chunk)).run (t.passed chunk) with ⟨stop | more,u⟩
          · rfl
          · rfl

/-- The loop takes what is asked for from what is ahead, or the data breaks off. -/
theorem readerCopyLoop_cases {fuel size : Nat} (enough : size < fuel) (small : SmallBuffer reader.source)
    (within : size ≤ reader.uncompressedRemaining) :
    (∃ taken t, (readerCopyLoop fuel size).run reader = (.ok taken,t) ∧ taken.length = size ∧ Draws reader taken t) ∨
    ∃ stop t, (readerCopyLoop fuel size).run reader = (.error stop,t) ∧ BreaksOff reader size stop t := by
  induction fuel generalizing size reader with
  | zero => exact absurd enough (Nat.not_lt_zero _)
  | succ fuel ih =>
    rw [readerCopyLoop]
    by_cases done : size = 0
    · rw [if_pos done]
      exact .inl ⟨[],reader,rfl,done.symm,.refl small⟩
    · rw [if_neg done]
      rcases readerChunk_cases size small with ⟨t,ran,some,filled⟩ | ⟨stop,t,ran,breaks⟩
      · have counted : t.uncompressedRemaining = reader.uncompressedRemaining := filled.counted
        have progress : 0 < min size t.available :=
          Nat.lt_min.mpr ⟨Nat.pos_of_ne_zero done,Nat.pos_of_ne_zero some⟩
        have part := Nat.min_le_left size t.available
        obtain ⟨length,passed⟩ := draws_passed filled.small (Nat.min_le_right size t.available) (by omega)
        have first : Draws reader _ _ := filled.trans passed
        rw [Action.bind_ok _ ran,Action.bind_ok _ (Action.read_apply _ _),Action.bind_ok _ (Action.update_apply _ _)]
        have fewer : size - min size t.available < fuel := by omega
        have within' : size - min size t.available ≤ (t.passed (min size t.available)).uncompressedRemaining := by
          have less := passed.counted
          omega
        rcases ih fewer passed.small within' with ⟨taken,u,more,rest,draws⟩ | ⟨stop,u,more,breaks⟩
        · rw [Action.bind_ok _ more]
          refine .inl ⟨_,u,rfl,?_,first.trans draws⟩
          rw [List.length_append,length,rest]
          omega
        · rw [Action.bind_error _ more]
          refine .inr ⟨stop,u,rfl,?_⟩
          have whole := first.breaksOff breaks
          rwa [List.nil_append,length,Nat.add_sub_cancel' part] at whole
      · rw [Action.bind_error _ ran]
        exact .inr ⟨stop,t,rfl,breaks size (Nat.pos_of_ne_zero done)⟩

theorem readerCopyBytes_refused {size : Nat} (beyond : size > reader.uncompressedRemaining) :
    (readerCopyBytes size).run reader = (.error (.error .eof "Attempted to read beyond data section"),reader) := by
  rw [readerCopyBytes,Action.bind_ok _ (Action.read_apply _ _),if_pos beyond]
  rfl

theorem readerSkipBytes_refused {size : Nat} (beyond : size > reader.uncompressedRemaining) :
    (readerSkipBytes size).run reader = (.error (.error .eof "Attempted to skip beyond data section"),reader) := by
  rw [readerSkipBytes,Action.bind_ok _ (Action.read_apply _ _),if_pos beyond]
  rfl

theorem readerCopyBytes_allowed {size : Nat} (within : size ≤ reader.uncompressedRemaining) :
    (readerCopyBytes size).run reader = (readerCopyLoop (size + 1) size).run reader := by
  rw [readerCopyBytes,Action.bind_ok _ (Action.read_apply _ _),if_neg (Nat.not_lt.mpr within),
    Action.bind_ok _ (Action.pure_apply _ _)]

/-- A skip that is allowed is a copy that is forgotten. -/
theorem readerSkipBytes_allowed {size : Nat} (within : size ≤ reader.uncompressedRemaining) :
    (readerSkipBytes size).run reader = ((readerCopyLoop (size + 1) size) >>= fun _ => pure ()).run reader := by
  rw [readerSkipBytes,Action.bind_ok _ (Action.read_apply _ _),if_neg (Nat.not_lt.mpr within),
    Action.bind_ok _ (Action.pure_apply _ _),readerSkipLoop_copies]

end Libnmo.Format
