import Libnmo.Format.StreamSlices

/-! A packed section as the fills see it. The inflate library gives back what the deflate library
has packed, however the bytes are cut, so the fills hand out the section. -/
namespace Libnmo.Format
open Core Lib Lib.Patch

section
variable {io : StreamIo} {zlib : InflateLibrary}

/-- What `inflate` documents of a call in a stream that gives `plain` for `input ++ rest`: it makes as much
of it as there is input and room for, and reports the end where nothing is left to make. -/
def InflatesOn {Z : Type} (unpacks : Z → List UInt8 → List UInt8 → Prop) (call : InflateCall Z)
    (input rest plain : List UInt8) (room : Nat) : Prop :=
  ∃ later, plain = call.made ++ later ∧
    ((call.status = .streamEnd ∧ later = []) ∨
      (call.status = .ok ∧ unpacks call.next (input.drop call.taken ++ rest) later ∧
        (call.made.length < room → call.taken = input.length ∧ rest ≠ [])))

/-- The streams of the library, with what they are still to be given and what they give for it. -/
structure Unpacking (zlib : InflateLibrary) where
  unpacks : zlib.State → List UInt8 → List UInt8 → Prop
  step : ∀ z input rest plain room, unpacks z (input ++ rest) plain → 0 < room → (input = [] → rest = []) →
    InflatesOn unpacks (zlib.inflate z input room) input rest plain room

variable {ahead : io.State → List UInt8 → Prop} {beyond plain data : List UInt8} {s : StreamSource io zlib} {n : Nat}
  {unpacking : Unpacking zlib}

/-- What the loop has put into the output buffer. -/
def StreamSource.filled (s : StreamSource io zlib) : List UInt8 := s.outBuffer.take s.nextOut

theorem sourceInput_ahead (message : String) (short : ShortReads io ahead) (room : s.outBuffer ≠ []) (some : data ≠ [])
    (remaining : s.compressedRemaining = data.length) (starts : ahead s.file (data ++ beyond)) :
    ∃ piece rest file, (sourceInput message).run s =
        (.ok piece,{ s with file := file, compressedRemaining := rest.length }) ∧
      piece ≠ [] ∧ data = piece ++ rest ∧ piece.length ≤ s.bufferSize ∧ ahead file (rest ++ beyond) := by
  have wanted : 0 < min s.bufferSize s.compressedRemaining := by
    refine Nat.lt_min.mpr ⟨List.length_pos_iff.mpr room,?_⟩
    rw [remaining]
    exact List.length_pos_iff.mpr some
  have inside : min s.bufferSize s.compressedRemaining ≤ (data ++ beyond).length := by
    rw [List.length_append,← remaining]
    exact (Nat.min_le_right ..).trans (Nat.le_add_right ..)
  obtain ⟨piece,file,left,read,filled,parts,follows⟩ := short s.file _ _ starts wanted inside
  have within := io.within _ _ _ _ read
  rw [Nat.le_min,remaining] at within
  obtain ⟨rest,rfl⟩ : piece <+: data :=
    List.prefix_of_prefix_length_le ⟨left,parts.symm⟩ (List.prefix_append ..) within.2
  rw [List.append_assoc,List.append_cancel_left_eq] at parts
  rw [← parts] at follows
  have counted : s.compressedRemaining - piece.length = rest.length := by
    rw [remaining,List.length_append,Nat.add_sub_cancel_left]
  refine ⟨piece,rest,file,?_,filled,rfl,within.1,follows⟩
  simp only [sourceInput,read]
  rw [if_neg filled,counted]

/-- The loop is at work on a stream that is still to give `plain`. -/
structure Loading (unpacking : Unpacking zlib) (ahead : io.State → List UInt8 → Prop) (beyond : List UInt8) (n : Nat)
    (s : StreamSource io zlib) (plain : List UInt8) : Prop where
  inflating : Inflating n s
  live : s.streamFinished = false
  stream : ∃ z packed, s.zstream = some z ∧ s.compressedRemaining = packed.length ∧ ahead s.file (packed ++ beyond) ∧
    unpacking.unpacks z (s.pending ++ packed) plain

/-- Behind a read there is input, unless all of it has been taken. -/
theorem moreInput_loading (short : ShortReads io ahead) (loading : Loading unpacking ahead beyond n s plain)
    (room : s.availOut ≠ 0) : ∃ t, moreInput.run s = (.ok (),t) ∧ Loading unpacking ahead beyond n t plain ∧ t.left = s.left ∧
      t.filled = s.filled ∧ t.availOut = s.availOut ∧ (t.pending = [] → t.compressedRemaining = 0) := by
  rw [moreInput,Action.bind_ok _ (Action.read_apply id s)]
  dsimp only [id]
  by_cases wanting : s.pending = [] ∧ s.compressedRemaining > 0
  · obtain ⟨z,packed,started,remaining,starts,gives⟩ := loading.stream
    have whole := loading.inflating
    have some : packed ≠ [] := by
      rintro rfl
      exact absurd remaining (Nat.ne_of_gt wanting.2)
    have buffer : s.outBuffer ≠ [] := by
      intro empty
      have size : s.bufferSize = 0 := congrArg List.length empty
      have full := whole.room
      rw [← whole.size,size] at full
      omega
    obtain ⟨piece,rest,file,ran,filled,rfl,within,follows⟩ :=
      sourceInput_ahead "Failed to read compressed data" short buffer some remaining starts
    have uncut : piece.take (piece.length % 2 ^ 32) = piece := by
      rw [Nat.mod_eq_of_lt (Nat.lt_of_le_of_lt (whole.size ▸ within) whole.small),List.take_length]
    rw [if_pos wanting,Action.bind_ok _ ran]
    refine ⟨_,rfl,⟨⟨whole.packed,whole.size,whole.small,whole.room,whole.started⟩,loading.live,
      ⟨z,rest,started,rfl,follows,?_⟩⟩,?_,rfl,rfl,?_⟩
    · dsimp only
      rw [wanting.1,List.nil_append] at gives
      rwa [uncut]
    · simp only [StreamSource.left,uncut,wanting.1,List.length_nil,remaining,List.length_append]
      omega
    · intro empty
      exact absurd (uncut ▸ empty) filled
  · rw [if_neg wanting]
    refine ⟨s,rfl,loading,rfl,rfl,rfl,fun empty => ?_⟩
    by_contra more
    exact wanting ⟨empty,Nat.pos_of_ne_zero more⟩

/-- One call gives the front of what the stream is to give. -/
theorem callInflate_loading (loading : Loading unpacking ahead beyond n s plain) (room : s.availOut ≠ 0)
    (fed : s.pending = [] → s.compressedRemaining = 0) : ∃ status made later t, callInflate.run s = (.ok status,t) ∧
      plain = made ++ later ∧ t.filled = s.filled ++ made ∧ Inflating n t ∧ t.streamFinished = false ∧
      (status = .ok → t.left < s.left) ∧
      ((status = .streamEnd ∧ later = []) ∨ (status = .ok ∧ Loading unpacking ahead beyond n t later ∧
        (t.availOut ≠ 0 → t.pending = [] ∧ t.compressedRemaining ≠ 0))) := by
  obtain ⟨z,packed,started,remaining,starts,gives⟩ := loading.stream
  have whole := loading.inflating
  obtain ⟨t,called,inflating,next,pending,same,less⟩ := callInflate_left started whole
  have emptied : s.pending = [] → packed = [] := fun empty => List.length_eq_zero_iff.mp (remaining.symm.trans (fed empty))
  obtain ⟨later,parts,outcome⟩ := unpacking.step z s.pending packed plain s.availOut gives (Nat.pos_of_ne_zero room) emptied
  have made := zlib.made_le z s.pending s.availOut
  have state : t = { s with
      zstream := some (zlib.inflate z s.pending s.availOut).next
      pending := s.pending.drop (zlib.inflate z s.pending s.availOut).taken
      outBuffer := overwrite s.outBuffer s.nextOut (zlib.inflate z s.pending s.availOut).made
      nextOut := s.nextOut + (zlib.inflate z s.pending s.availOut).made.length
      availOut := s.availOut - (zlib.inflate z s.pending s.availOut).made.length } := by
    rw [callInflate] at called
    simp only [started] at called
    exact (Prod.mk.inj called).2.symm
  have filled : t.filled = s.filled ++ (zlib.inflate z s.pending s.availOut).made := by
    rw [state]
    apply take_overwrite
    have full := whole.room
    rw [← whole.size,StreamSource.bufferSize] at full
    omega
  have live : t.streamFinished = false := by
    rw [state]
    exact loading.live
  refine ⟨_,_,later,t,called,parts,filled,inflating,live,less,?_⟩
  rcases outcome with ended | ⟨fine,gives',short⟩
  · exact .inl ended
  · refine .inr ⟨fine,⟨inflating,live,_,packed,next,same.trans remaining,?_,?_⟩,fun left => ?_⟩
    · rw [state]
      exact starts
    · rw [pending]
      exact gives'
    · have unfilled : (zlib.inflate z s.pending s.availOut).made.length < s.availOut := by
        rw [state] at left
        exact Nat.lt_of_sub_ne_zero left
      obtain ⟨all,more⟩ := short unfilled
      refine ⟨?_,fun none => more (List.length_eq_zero_iff.mp (remaining.symm.trans (same.symm.trans none)))⟩
      rw [pending,all,List.drop_length]

theorem inflateRound_loading (short : ShortReads io ahead) (loading : Loading unpacking ahead beyond n s plain)
    (room : s.availOut ≠ 0) : ∃ more made later t, inflateRound.run s = (.ok more,t) ∧ plain = made ++ later ∧
      t.filled = s.filled ++ made ∧ Inflating n t ∧
      ((more = false ∧ t.streamFinished = true ∧ later = []) ∨
        (Loading unpacking ahead beyond n t later ∧ (more = false → t.availOut = 0) ∧ (more = true → t.left < s.left))) := by
  obtain ⟨t,ran,loading',left,filled,same,fed⟩ := moreInput_loading short loading room
  obtain ⟨status,made,later,u,called,parts,filled',inflating,live,less,outcome⟩ :=
    callInflate_loading loading' (same ▸ room) fed
  rw [inflateRound,Action.bind_ok _ ran,Action.bind_ok _ called,Action.bind_ok _ (Action.read_apply id u)]
  dsimp only [id]
  rw [filled] at filled'
  rcases outcome with ⟨rfl,ended⟩ | ⟨rfl,loading'',fuller⟩
  · rw [if_pos rfl]
    exact ⟨false,made,later,_,rfl,parts,filled',
      ⟨inflating.packed,inflating.size,inflating.small,inflating.room,inflating.started⟩,.inl ⟨rfl,rfl,ended⟩⟩
  · rw [if_neg (by decide),if_neg (by decide)]
    have unended : ¬ (u.pending = [] ∧ u.compressedRemaining = 0 ∧ u.availOut = u.bufferSize) := by
      rintro ⟨_,none,untouched⟩
      by_cases full : u.availOut = 0
      · have size := inflating.room
        have before := loading.inflating.room
        have buffer := inflating.size
        omega
      · exact (fuller full).2 none
    rw [if_neg unended]
    refine ⟨_,made,later,u,rfl,parts,filled',inflating,.inr ⟨loading'',fun last => ?_,fun _ => left ▸ less rfl⟩⟩
    by_contra full
    simp only [decide_eq_false_iff_not,not_and_or,not_not] at last
    rcases last with empty | used
    · exact full empty
    · exact (fuller full).2 (not_not.mp (not_or.mp used).1)

/-- The loop fills the buffer or comes to the end of the stream. -/
theorem inflateLoop_loading (short : ShortReads io ahead) {fuel : Nat} (enough : s.left < fuel)
    (loading : Loading unpacking ahead beyond n s plain) : ∃ made later t, (inflateLoop fuel).run s = (.ok (),t) ∧
      plain = made ++ later ∧ t.filled = s.filled ++ made ∧ Inflating n t ∧
      ((t.streamFinished = true ∧ later = []) ∨ (Loading unpacking ahead beyond n t later ∧ t.availOut = 0)) := by
  induction fuel generalizing s plain with
  | zero => exact absurd enough (Nat.not_lt_zero _)
  | succ fuel ih =>
    rw [inflateLoop,Action.bind_ok _ (Action.read_apply StreamSource.availOut s)]
    by_cases full : s.availOut = 0
    · rw [if_pos full]
      exact ⟨[],plain,s,rfl,rfl,(List.append_nil _).symm,loading.inflating,.inr ⟨loading,full⟩⟩
    · rw [if_neg full]
      obtain ⟨more,made,later,t,ran,parts,filled,inflating,outcome⟩ := inflateRound_loading short loading full
      rw [Action.bind_ok _ ran]
      rcases outcome with ⟨rfl,finished,ended⟩ | ⟨loading',last,less⟩
      · exact ⟨made,later,t,rfl,parts,filled,inflating,.inl ⟨finished,ended⟩⟩
      · cases more with
        | false => exact ⟨made,later,t,rfl,parts,filled,inflating,.inr ⟨loading',last rfl⟩⟩
        | true =>
          obtain ⟨made',later',u,looped,parts',filled',inflating',outcome⟩ :=
            ih (Nat.lt_of_lt_of_le (less rfl) (Nat.le_of_lt_succ enough)) loading'
          refine ⟨made ++ made',later',u,looped,?_,?_,inflating',outcome⟩
          · rw [parts,parts',List.append_assoc]
          · rw [filled',filled,List.append_assoc]

/-- A packed section of which `rest` is still to be given: the stream has ended, or it gives `rest` for what is
left of its bytes. -/
structure PackedAhead (unpacking : Unpacking zlib) (ahead : io.State → List UInt8 → Prop) (beyond : List UInt8)
    (s : StreamSource io zlib) (rest : List UInt8) : Prop where
  packed : s.dataCompressed = true
  room : s.outBuffer ≠ []
  small : s.bufferSize < 2 ^ 32
  stream : (s.streamFinished = true ∧ rest = []) ∨ (s.streamFinished = false ∧ ∃ z packed, s.compressedRemaining = packed.length ∧
    ahead s.file (packed ++ beyond) ∧ ((s.zstream = some z ∧ unpacking.unpacks z (s.pending ++ packed) rest) ∨
      (s.zstream = none ∧ zlib.init = some z ∧ unpacking.unpacks z packed rest)))

theorem startInflate_loading (begun : PackedAhead unpacking ahead beyond s plain) (live : s.streamFinished = false) :
    ∃ t, startInflate.run s = (.ok (),t) ∧ Loading unpacking ahead beyond s.bufferSize t.emptied plain ∧
      t.emptied.filled = [] := by
  obtain ⟨_,z,packed,remaining,starts,stream⟩ := begun.stream.resolve_left fun ended => by
    rw [live] at ended
    exact Bool.false_ne_true ended.1
  have small := begun.small
  rw [startInflate]
  rcases stream with ⟨started,gives⟩ | ⟨unstarted,ready,gives⟩
  · simp only [started]
    exact ⟨s,rfl,⟨inflating_emptied begun.packed small started,live,z,packed,started,remaining,starts,gives⟩,rfl⟩
  · simp only [unstarted,ready]
    refine ⟨_,rfl,⟨?_,live,z,packed,rfl,remaining,starts,gives⟩,rfl⟩
    exact inflating_emptied (s := { s with zstream := some z, pending := [] }) begun.packed small rfl

theorem fillInflated_packed (short : ShortReads io ahead) (begun : PackedAhead unpacking ahead beyond s plain)
    (live : s.streamFinished = false) :
    (∃ piece later t, fillInflated.run s = (.ok piece,t) ∧ plain = piece ++ later ∧ PackedAhead unpacking ahead beyond t later) ∨
    (plain = [] ∧ ∃ stop t, fillInflated.run s = (.error stop,t)) := by
  obtain ⟨u,started,loading,empty⟩ := startInflate_loading begun live
  obtain ⟨made,later,t,looped,parts,filled,inflating,outcome⟩ :=
    inflateLoop_loading short (Nat.lt_succ_self u.emptied.left) loading
  rw [empty,List.nil_append] at filled
  have size : t.bufferSize = s.bufferSize := inflating.size
  have count : t.bufferSize - t.availOut = t.nextOut := by
    have full := inflating.room
    omega
  rw [fillInflated,Action.bind_ok _ started,Action.bind_ok _ (Action.update_apply _ _),
    Action.bind_ok _ (Action.read_apply _ _),Action.bind_ok _ looped,Action.bind_ok _ (Action.read_apply id t)]
  dsimp only [id]
  have buffer : 0 < t.bufferSize := size ▸ List.length_pos_iff.mpr begun.room
  by_cases none : t.bufferSize - t.availOut = 0
  · rw [if_pos none]
    refine .inr ⟨?_,_,t,rfl⟩
    rcases outcome with ⟨_,ended⟩ | ⟨_,full⟩
    · rw [parts,ended,List.append_nil,← filled,StreamSource.filled,← count,none]
      rfl
    · rw [full] at none
      exact absurd none (Nat.ne_of_gt buffer)
  · rw [if_neg none]
    refine .inl ⟨made,later,t,?_,parts,inflating.packed,?_,?_,?_⟩
    · rw [← filled,StreamSource.filled,← count]
      rfl
    · intro absent
      exact absurd (congrArg List.length absent) (Nat.ne_of_gt buffer)
    · rw [size]
      exact begun.small
    · rcases outcome with ended | ⟨loading',_⟩
      · exact .inl ended
      · obtain ⟨z,packed,some,remaining,starts,gives⟩ := loading'.stream
        exact .inr ⟨loading'.live,z,packed,remaining,starts,.inl ⟨some,gives⟩⟩

theorem packed_backs (short : ShortReads io ahead) :
    Backs (sourceNext : Run (StreamSource io zlib) (List UInt8)) (PackedAhead unpacking ahead beyond) := by
  constructor
  · intro s rest begun some
    have live : s.streamFinished = false := by
      rcases begun.stream with ⟨_,ended⟩ | ⟨live,_⟩
      · exact absurd ended some
      · exact live
    rw [sourceNext_fills live,fillSource_packed begun.packed]
    rcases fillInflated_packed short begun live with ⟨piece,later,t,ran,parts,follows⟩ | ⟨none,_⟩
    · exact ⟨piece,t,later,ran,parts,follows⟩
    · exact absurd none some
  · intro s begun
    cases finished : s.streamFinished with
    | true => exact ⟨_,s,sourceNext_finished finished⟩
    | false =>
      rw [sourceNext_fills finished,fillSource_packed begun.packed]
      rcases fillInflated_packed short begun finished with ⟨piece,later,t,ran,parts,_⟩ | ⟨_,failed⟩
      · rcases fillInflated_cases begun.packed begun.small with ⟨bytes,u,ran',some,_⟩ | ⟨stop,u,ran',_⟩
        · rw [ran] at ran'
          obtain ⟨same,_⟩ := Prod.mk.inj ran'
          rw [← Except.ok.inj same] at some
          exact absurd (List.append_eq_nil_iff.mp parts.symm).1 some
        · exact ⟨stop,u,ran'⟩
      · exact failed

end

end Libnmo.Format
