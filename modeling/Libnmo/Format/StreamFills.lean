import Libnmo.Format.StreamSource

/-! How a fill of the output buffer ends. The loop around the inflate library ends because each
round that goes on uses up input or room, and whatever makes a fill fail lasts. -/
namespace Libnmo.Format
open Core Lib Lib.Patch

variable {io : StreamIo} {zlib : InflateLibrary} {s : StreamSource io zlib} {n : Nat}

/-- No later fill goes well: the section is finished, or the data is packed and there is no output
buffer, no inflate stream to be had, or one that fails on all the input that is left. -/
inductive Exhausted (s : StreamSource io zlib) : Prop
  | finished (ended : s.streamFinished = true)
  | noBuffer (packed : s.dataCompressed = true) (none : s.outBuffer = [])
  | noStream (packed : s.dataCompressed = true) (unstarted : s.zstream = none) (unready : zlib.init = none)
  | stuck (packed : s.dataCompressed = true) (small : s.bufferSize < 2 ^ 32) (z : zlib.State) (started : s.zstream = some z)
      (failing : ∀ input room, (s.pending = [] ∧ s.compressedRemaining = 0 → input = []) →
        (zlib.inflate z input room).status = .failed)

theorem sourceInput_cases (message : String) (s : StreamSource io zlib) :
    (∃ bytes file, bytes ≠ [] ∧ bytes.length ≤ min s.bufferSize s.compressedRemaining ∧
      io.read s.file (min s.bufferSize s.compressedRemaining) = (some bytes,file) ∧
      (sourceInput message).run s =
        (.ok bytes,{ s with file := file, compressedRemaining := s.compressedRemaining - bytes.length })) ∨
    ∃ file, (sourceInput message).run s =
      (.error (.error .cantReadFile message),{ s with file := file, streamFinished := true }) := by
  simp only [sourceInput]
  cases ran : io.read s.file (min s.bufferSize s.compressedRemaining) with
  | mk outcome file =>
    cases outcome with
    | none => exact .inr ⟨file,rfl⟩
    | some bytes =>
      have within := io.within _ _ _ _ ran
      by_cases empty : bytes = []
      · exact .inr ⟨file,if_pos empty⟩
      · exact .inl ⟨bytes,file,empty,within,rfl,if_neg empty⟩

theorem fillPlain_reads {bytes : List UInt8} {file : io.State} (more : s.compressedRemaining ≠ 0) (some : bytes ≠ [])
    (read : io.read s.file (min s.bufferSize s.compressedRemaining) = (.some bytes,file)) :
    fillPlain.run s = (.ok bytes,{ s with
      file := file
      outBuffer := overwrite s.outBuffer 0 bytes
      compressedRemaining := s.compressedRemaining - bytes.length
      streamFinished := s.streamFinished || s.compressedRemaining - bytes.length = 0 }) := by
  have ran : (sourceInput "Failed to stream data section").run s =
      (.ok bytes,{ s with file := file, compressedRemaining := s.compressedRemaining - bytes.length }) := by
    simp only [sourceInput,read]
    exact if_neg some
  rw [fillPlain,Action.bind_ok _ (Action.read_apply _ _),if_neg more,Action.bind_ok _ ran]
  rfl

/-- Any failure finishes an uncompressed section. -/
theorem fillPlain_cases (s : StreamSource io zlib) :
    (∃ bytes t, fillPlain.run s = (.ok bytes,t) ∧ bytes ≠ [] ∧ t.dataCompressed = s.dataCompressed) ∨
    ∃ stop t, fillPlain.run s = (.error stop,t) ∧ t.streamFinished = true := by
  by_cases done : s.compressedRemaining = 0
  · rw [fillPlain,Action.bind_ok _ (Action.read_apply StreamSource.compressedRemaining s),if_pos done]
    exact .inr ⟨_,_,rfl,rfl⟩
  · rcases sourceInput_cases "Failed to stream data section" s with ⟨bytes,file,some,_,read,_⟩ | ⟨file,ran⟩
    · exact .inl ⟨bytes,_,fillPlain_reads done some read,some,rfl⟩
    · rw [fillPlain,Action.bind_ok _ (Action.read_apply StreamSource.compressedRemaining s),if_neg done,
        Action.bind_error _ ran]
      exact .inr ⟨_,_,rfl,rfl⟩

/-- The loop is at work on an output buffer of size `n`. -/
structure Inflating (n : Nat) (s : StreamSource io zlib) : Prop where
  packed : s.dataCompressed = true
  size : s.bufferSize = n
  small : n < 2 ^ 32
  room : s.nextOut + s.availOut = n
  started : s.zstream ≠ none

theorem moreInput_cases (inflating : Inflating n s) :
    (∃ t, moreInput.run s = (.ok (),t) ∧ Inflating n t ∧ t.left = s.left ∧ t.zstream = s.zstream ∧
      t.availOut = s.availOut ∧ (t.pending = [] → t.compressedRemaining = 0) ∧
      (s.pending = [] ∧ s.compressedRemaining = 0 → t.pending = [])) ∨
    ∃ stop t, moreInput.run s = (.error stop,t) ∧ t.streamFinished = true := by
  rw [moreInput,Action.bind_ok _ (Action.read_apply id s)]
  dsimp only [id]
  by_cases wanting : s.pending = [] ∧ s.compressedRemaining > 0
  · rw [if_pos wanting]
    rcases sourceInput_cases "Failed to read compressed data" s with ⟨bytes,file,some,within,_,ran⟩ | ⟨file,ran⟩
    · obtain ⟨fits,within⟩ := Nat.le_min.mp within
      rw [Action.bind_ok _ ran]
      have whole : bytes.take (bytes.length % 2 ^ 32) = bytes := by
        rw [Nat.mod_eq_of_lt (Nat.lt_of_le_of_lt (inflating.size ▸ fits) inflating.small),List.take_length]
      refine .inl ⟨_,rfl,⟨inflating.packed,inflating.size,inflating.small,inflating.room,inflating.started⟩,?_,rfl,rfl,?_,?_⟩
      · simp only [StreamSource.left,whole,wanting.1,List.length_nil]
        omega
      · intro empty
        exact absurd (whole ▸ empty) some
      · rintro ⟨_,none⟩
        exact absurd none (Nat.ne_of_gt wanting.2)
    · rw [Action.bind_error _ ran]
      exact .inr ⟨_,_,rfl,rfl⟩
  · rw [if_neg wanting]
    refine .inl ⟨s,rfl,inflating,rfl,rfl,rfl,?_,And.left⟩
    intro empty
    by_contra more
    exact wanting ⟨empty,Nat.pos_of_ne_zero more⟩

theorem callInflate_left {z : zlib.State} (started : s.zstream = some z) (inflating : Inflating n s) :
    ∃ t, callInflate.run s = (.ok (zlib.inflate z s.pending s.availOut).status,t) ∧ Inflating n t ∧
      t.zstream = some (zlib.inflate z s.pending s.availOut).next ∧
      t.pending = s.pending.drop (zlib.inflate z s.pending s.availOut).taken ∧
      t.compressedRemaining = s.compressedRemaining ∧
      ((zlib.inflate z s.pending s.availOut).status = .ok → t.left < s.left) := by
  have taken := zlib.taken_le z s.pending s.availOut
  have made := zlib.made_le z s.pending s.availOut
  have progress := zlib.progress z s.pending s.availOut
  have room := inflating.room
  have size := inflating.size
  rw [callInflate]
  simp only [started]
  refine ⟨_,rfl,⟨inflating.packed,?_,inflating.small,?_,Option.some_ne_none _⟩,rfl,rfl,rfl,?_⟩
  · rw [StreamSource.bufferSize] at size ⊢
    rw [length_overwrite _ _ _ (by omega),size]
  · dsimp only
    omega
  · intro fine
    have used : (zlib.inflate z s.pending s.availOut).taken ≠ 0 ∨ (zlib.inflate z s.pending s.availOut).made.length ≠ 0 := by
      rcases progress fine with some | some
      · exact .inl some
      · exact .inr fun none => some (List.length_eq_zero_iff.mp none)
    simp only [StreamSource.left,List.length_drop]
    omega

theorem inflateRound_cases (inflating : Inflating n s) :
    (∃ more t, inflateRound.run s = (.ok more,t) ∧ Inflating n t ∧ (more = true → t.left < s.left) ∧
      (more = false → t.availOut = n → t.streamFinished = true ∨ n = 0)) ∨
    ∃ stop t, inflateRound.run s = (.error stop,t) ∧ Exhausted t := by
  rw [inflateRound]
  rcases moreInput_cases inflating with ⟨t,ran,inflating,left,_,_,whole,_⟩ | ⟨stop,t,ran,finished⟩
  · rw [Action.bind_ok _ ran]
    obtain ⟨z,started⟩ := Option.ne_none_iff_exists'.mp inflating.started
    obtain ⟨u,called,inflating',next,pending,remaining,less⟩ := callInflate_left started inflating
    rw [Action.bind_ok _ called,Action.bind_ok _ (Action.read_apply id u)]
    dsimp only [id]
    cases status : (zlib.inflate z t.pending t.availOut).status with
    | streamEnd =>
      refine .inl ⟨false,_,rfl,?_,nofun,fun _ _ => .inl rfl⟩
      exact ⟨inflating'.packed,inflating'.size,inflating'.small,inflating'.room,inflating'.started⟩
    | failed =>
      refine .inr ⟨_,u,rfl,.stuck inflating'.packed (inflating'.size ▸ inflating'.small) _ next ?_⟩
      intro input room starved
      apply zlib.stuck z t.pending t.availOut status
      intro empty
      refine starved ⟨?_,remaining.trans (whole empty)⟩
      rw [pending,empty,List.drop_nil]
    | ok =>
      rw [if_neg (by decide),if_neg (by decide)]
      split
      · refine .inl ⟨false,_,rfl,?_,nofun,fun _ _ => .inl rfl⟩
        exact ⟨inflating'.packed,inflating'.size,inflating'.small,inflating'.room,inflating'.started⟩
      · rename_i some
        refine .inl ⟨_,u,rfl,inflating',fun _ => left ▸ less status,fun last untouched => .inr ?_⟩
        simp only [decide_eq_false_iff_not,not_and_or,not_not] at last
        rcases last with full | used
        · exact untouched.symm.trans full
        · have both := not_or.mp used
          exact absurd ⟨not_not.mp both.2,not_not.mp both.1,untouched.trans inflating'.size.symm⟩ some
  · rw [Action.bind_error _ ran]
    exact .inr ⟨stop,t,rfl,.finished finished⟩

/-- The loop ends within as many rounds as there is input and room to use up. -/
theorem inflateLoop_cases {fuel : Nat} (enough : s.left < fuel) (inflating : Inflating n s) :
    (∃ t, (inflateLoop fuel).run s = (.ok (),t) ∧ Inflating n t ∧
      (t.availOut = n → t.streamFinished = true ∨ n = 0)) ∨
    ∃ stop t, (inflateLoop fuel).run s = (.error stop,t) ∧ Exhausted t := by
  induction fuel generalizing s with
  | zero => exact absurd enough (Nat.not_lt_zero _)
  | succ fuel ih =>
    rw [inflateLoop,Action.bind_ok _ (Action.read_apply StreamSource.availOut s)]
    by_cases full : s.availOut = 0
    · rw [if_pos full]
      exact .inl ⟨s,rfl,inflating,fun untouched => .inr (untouched.symm.trans full)⟩
    · rw [if_neg full]
      rcases inflateRound_cases inflating with ⟨more,t,ran,inflating,less,last⟩ | ⟨stop,t,ran,exhausted⟩
      · rw [Action.bind_ok _ ran]
        cases more with
        | false => exact .inl ⟨t,rfl,inflating,last rfl⟩
        | true => exact ih (Nat.lt_of_lt_of_le (less rfl) (Nat.le_of_lt_succ enough)) inflating
      · rw [Action.bind_error _ ran]
        exact .inr ⟨stop,t,rfl,exhausted⟩

theorem startInflate_cases (s : StreamSource io zlib) :
    (∃ z t, startInflate.run s = (.ok (),t) ∧ t.zstream = some z ∧ t.dataCompressed = s.dataCompressed ∧
      t.outBuffer = s.outBuffer ∧ (s.zstream ≠ none → t = s)) ∨
    ∃ stop, startInflate.run s = (.error stop,{ s with pending := [] }) ∧ s.zstream = none ∧ zlib.init = none := by
  rw [startInflate]
  cases started : s.zstream with
  | some z =>
    refine .inl ⟨z,s,?_,started,rfl,rfl,fun _ => rfl⟩
    simp only [started]
  | none =>
    cases ready : zlib.init with
    | some z =>
      refine .inl ⟨z,{ s with zstream := some z, pending := [] },?_,rfl,rfl,rfl,fun absent => absurd rfl absent⟩
      simp only [started]
    | none =>
      refine .inr ⟨.error .internal "Failed to initialize inflate stream",?_,rfl,rfl⟩
      simp only [started]

/-- The loop starts on the whole output buffer where its size fits in 32 bits. -/
theorem inflating_emptied {z : zlib.State} (packed : s.dataCompressed = true) (small : s.bufferSize < 2 ^ 32)
    (started : s.zstream = some z) : Inflating s.bufferSize s.emptied := by
  refine ⟨packed,rfl,small,?_,?_⟩
  · rw [StreamSource.emptied]
    dsimp only
    rw [Nat.mod_eq_of_lt small,Nat.zero_add]
  · rw [StreamSource.emptied]
    dsimp only
    rw [started]
    exact Option.some_ne_none z

theorem fillInflated_cases (packed : s.dataCompressed = true) (small : s.bufferSize < 2 ^ 32) :
    (∃ bytes t, fillInflated.run s = (.ok bytes,t) ∧ bytes ≠ [] ∧ bytes.length ≤ s.bufferSize ∧ t.bufferSize < 2 ^ 32) ∨
    ∃ stop t, fillInflated.run s = (.error stop,t) ∧ Exhausted t := by
  rw [fillInflated]
  rcases startInflate_cases s with ⟨z,u,ran,started,packed',same,_⟩ | ⟨stop,ran,unstarted,unready⟩
  · rw [Action.bind_ok _ ran,Action.bind_ok _ (Action.update_apply _ _),Action.bind_ok _ (Action.read_apply _ _)]
    have same : u.bufferSize = s.bufferSize := congrArg List.length same
    have small' := same ▸ small
    have inflating := inflating_emptied (packed'.trans packed) small' started
    rcases inflateLoop_cases (Nat.lt_succ_self _) inflating with ⟨t,looped,inflating,last⟩ | ⟨stop,t,looped,exhausted⟩
    · rw [Action.bind_ok _ looped,Action.bind_ok _ (Action.read_apply _ _)]
      dsimp only [id]
      by_cases none : t.bufferSize - t.availOut = 0
      · rw [if_pos none]
        refine .inr ⟨_,t,rfl,?_⟩
        have untouched : t.availOut = u.bufferSize := by
          have room := inflating.room
          have size := inflating.size
          omega
        rcases last untouched with finished | empty
        · exact .finished finished
        · exact .noBuffer inflating.packed (List.length_eq_zero_iff.mp (inflating.size.trans empty))
      · rw [if_neg none]
        refine .inl ⟨_,t,rfl,?_,?_,inflating.size ▸ small'⟩
        · intro empty
          rcases List.take_eq_nil_iff.mp empty with zero | absent
          · exact none zero
          · apply none
            rw [StreamSource.bufferSize,absent,List.length_nil,Nat.zero_sub]
        · rw [← same,← inflating.size]
          exact List.length_take_le' ..
    · rw [Action.bind_error _ looped]
      exact .inr ⟨stop,t,rfl,exhausted⟩
  · rw [Action.bind_error _ ran]
    exact .inr ⟨stop,_,rfl,.noStream packed unstarted unready⟩

theorem stuck_round {z : zlib.State} (inflating : Inflating n s) (started : s.zstream = some z)
    (failing : ∀ input room, (s.pending = [] ∧ s.compressedRemaining = 0 → input = []) →
      (zlib.inflate z input room).status = .failed) : ∃ stop t, inflateRound.run s = (.error stop,t) := by
  rw [inflateRound]
  rcases moreInput_cases inflating with ⟨t,ran,inflating,_,same,_,_,starved⟩ | ⟨stop,t,ran,_⟩
  · rw [Action.bind_ok _ ran]
    obtain ⟨u,called,_⟩ := callInflate_left (same.trans started) inflating
    rw [failing _ _ starved] at called
    rw [Action.bind_ok _ called,Action.bind_ok _ (Action.read_apply id u)]
    exact ⟨_,u,rfl⟩
  · rw [Action.bind_error _ ran]
    exact ⟨stop,t,rfl⟩

/-- On a stuck stream the loop fails, unless there is no room to begin with. -/
theorem stuck_loop {z : zlib.State} (fuel : Nat) (inflating : Inflating n s) (started : s.zstream = some z)
    (failing : ∀ input room, (s.pending = [] ∧ s.compressedRemaining = 0 → input = []) →
      (zlib.inflate z input room).status = .failed) :
    (s.availOut = 0 ∧ (inflateLoop (fuel + 1)).run s = (.ok (),s)) ∨
    ∃ stop t, (inflateLoop (fuel + 1)).run s = (.error stop,t) := by
  rw [inflateLoop,Action.bind_ok _ (Action.read_apply StreamSource.availOut s)]
  by_cases full : s.availOut = 0
  · rw [if_pos full]
    exact .inl ⟨full,rfl⟩
  · rw [if_neg full]
    obtain ⟨stop,t,ran⟩ := stuck_round inflating started failing
    rw [Action.bind_error _ ran]
    exact .inr ⟨stop,t,rfl⟩

theorem stuck_fill {z : zlib.State} (packed : s.dataCompressed = true) (small : s.bufferSize < 2 ^ 32)
    (started : s.zstream = some z)
    (failing : ∀ input room, (s.pending = [] ∧ s.compressedRemaining = 0 → input = []) →
      (zlib.inflate z input room).status = .failed) : ∃ stop t, fillInflated.run s = (.error stop,t) := by
  rw [fillInflated]
  rcases startInflate_cases s with ⟨_,u,ran,_,_,_,same⟩ | ⟨stop,ran,_⟩
  · obtain rfl : u = s := by
      apply same
      rw [started]
      exact Option.some_ne_none z
    rw [Action.bind_ok _ ran,Action.bind_ok _ (Action.update_apply _ _),Action.bind_ok _ (Action.read_apply _ _)]
    have inflating := inflating_emptied packed small started
    rcases stuck_loop u.emptied.left inflating started failing with ⟨full,looped⟩ | ⟨stop,t,looped⟩
    · rw [Action.bind_ok _ looped,Action.bind_ok _ (Action.read_apply _ _)]
      dsimp only [id]
      have size : u.emptied.availOut = u.bufferSize := Nat.mod_eq_of_lt small
      have none : u.emptied.bufferSize - u.emptied.availOut = 0 := by
        rw [size]
        exact Nat.sub_self _
      rw [if_pos none]
      exact ⟨_,_,rfl⟩
    · rw [Action.bind_error _ looped]
      exact ⟨stop,t,rfl⟩
  · rw [Action.bind_error _ ran]
    exact ⟨stop,_,rfl⟩

theorem fillSource_packed (packed : s.dataCompressed = true) : fillSource.run s = fillInflated.run s := by
  rw [fillSource,Action.bind_ok _ (Action.read_apply _ _),if_pos packed]

theorem fillSource_plain (plain : s.dataCompressed = false) : fillSource.run s = fillPlain.run s := by
  rw [fillSource,Action.bind_ok _ (Action.read_apply _ _),plain]
  rfl

theorem sourceNext_finished (finished : s.streamFinished = true) :
    sourceNext.run s = (.error (.error .eof "Data section fully consumed"),s) := by
  rw [sourceNext,Action.bind_ok _ (Action.read_apply _ _),if_pos finished]
  rfl

theorem sourceNext_fills (unfinished : s.streamFinished = false) : sourceNext.run s = fillSource.run s := by
  rw [sourceNext,Action.bind_ok _ (Action.read_apply _ _),unfinished]
  rfl

theorem exhausted_fill (exhausted : Exhausted s) (unfinished : s.streamFinished = false) :
    ∃ stop t, fillInflated.run s = (.error stop,t) ∧ s.dataCompressed = true ∧ Exhausted t := by
  cases exhausted with
  | finished ended =>
    rw [unfinished] at ended
    cases ended
  | noBuffer packed none =>
    have size : s.bufferSize = 0 := List.length_eq_zero_iff.mpr none
    rcases fillInflated_cases packed (by omega) with ⟨bytes,t,_,some,within,_⟩ | ⟨stop,t,ran,exhausted⟩
    · rw [size] at within
      exact absurd (List.length_eq_zero_iff.mp (Nat.le_zero.mp within)) some
    · exact ⟨stop,t,ran,packed,exhausted⟩
  | noStream packed unstarted unready =>
    rcases startInflate_cases s with ⟨z,u,ran,started,_⟩ | ⟨stop,ran,_⟩
    · simp only [startInflate,unstarted,unready] at ran
      cases ran
    · rw [fillInflated,Action.bind_error _ ran]
      exact ⟨stop,_,rfl,packed,.noStream packed unstarted unready⟩
  | stuck packed small z started failing =>
    obtain ⟨stop,t,ran⟩ := stuck_fill packed small started failing
    rcases fillInflated_cases packed small with ⟨bytes,u,ran',_⟩ | ⟨stop',t',ran',exhausted⟩
    · rw [ran] at ran'
      cases ran'
    · exact ⟨stop',t',ran',packed,exhausted⟩

theorem exhausted_fails (exhausted : Exhausted s) : ∃ stop t, sourceNext.run s = (.error stop,t) ∧ Exhausted t := by
  cases finished : s.streamFinished with
  | true => exact ⟨_,s,sourceNext_finished finished,exhausted⟩
  | false =>
    obtain ⟨stop,t,ran,packed,lasts⟩ := exhausted_fill exhausted finished
    rw [sourceNext_fills finished,fillSource_packed packed]
    exact ⟨stop,t,ran,lasts⟩

/-- A fill gives bytes, or no later fill does. -/
theorem sourceNext_cases (small : SmallBuffer s) :
    (∃ bytes t, sourceNext.run s = (.ok bytes,t) ∧ bytes ≠ [] ∧ SmallBuffer t) ∨
    ∃ stop t, sourceNext.run s = (.error stop,t) ∧ Dry sourceNext t := by
  have lasting {t : StreamSource io zlib} (exhausted : Exhausted t) : Dry sourceNext t :=
    dry_of (fun _ => exhausted_fails) exhausted
  cases finished : s.streamFinished with
  | true => exact .inr ⟨_,s,sourceNext_finished finished,lasting (.finished finished)⟩
  | false =>
    rw [sourceNext_fills finished]
    cases packed : s.dataCompressed with
    | true =>
      rw [fillSource_packed packed]
      rcases fillInflated_cases packed (small packed) with ⟨bytes,t,ran,some,_,small⟩ | ⟨stop,t,ran,exhausted⟩
      · exact .inl ⟨bytes,t,ran,some,fun _ => small⟩
      · exact .inr ⟨stop,t,ran,lasting exhausted⟩
    | false =>
      rw [fillSource_plain packed]
      rcases fillPlain_cases s with ⟨bytes,t,ran,some,same⟩ | ⟨stop,t,ran,finished⟩
      · refine .inl ⟨bytes,t,ran,some,fun packed' => ?_⟩
        rw [same,packed] at packed'
        cases packed'
      · exact .inr ⟨stop,t,ran,lasting (.finished finished)⟩

end Libnmo.Format
