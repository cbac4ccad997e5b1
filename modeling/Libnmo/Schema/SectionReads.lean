import Libnmo.Format.SharedOps
import Libnmo.Schema.ObjectRoundTrip
import Libnmo.Format.ChunkShapes

/-! What the readers of sections make of any words. A scan stops behind the first word
that equals the identifier; a read of a word there gives it or fails at the end. The
reader of be-objects accepts all words but a count of attributes that is so slightly
negative that the size of their array wraps. -/
namespace Libnmo.Schema
open Core Format Lib Lib.LittleEndian Lib.Cursor

/-- A chunk with such words whose position can be set. -/
structure Opened (words : List UInt32) (c : Chunk) : Prop where
  same : c.words = words
  reading : ∃ state, c.parserState = some state

/-- The position is in front of the rest. -/
structure Standing (words rest : List UInt32) (c : Chunk) : Prop where
  same : c.words = words
  ahead : ∃ state, c.parserState = some state ∧ Ahead words state.currentPos rest

/-- The position is at the end or behind it. -/
structure Ended (words : List UInt32) (c : Chunk) : Prop where
  same : c.words = words
  past : ∃ state, c.parserState = some state ∧ words.length ≤ state.currentPos

/-- What follows the first such word. -/
def behind (identifier : UInt32) : List UInt32 → Option (List UInt32)
  | [] => none
  | word :: rest => if word = identifier then some rest else behind identifier rest

theorem Standing.opened {words rest : List UInt32} {c : Chunk} (standing : Standing words rest c) : Opened words c := by
  obtain ⟨state,reading,_⟩ := standing.ahead
  exact ⟨standing.same,state,reading⟩

theorem Standing.ended {words : List UInt32} {c : Chunk} (standing : Standing words [] c) : Ended words c := by
  obtain ⟨state,reading,ahead⟩ := standing.ahead
  exact ⟨standing.same,state,reading,Nat.le_of_eq ahead.length_eq⟩

theorem Opened.cases {words : List UInt32} {c : Chunk} (opened : Opened words c) :
    (∃ word rest, Standing words (word :: rest) c) ∨ Ended words c := by
  obtain ⟨state,reading⟩ := opened.reading
  by_cases inside : state.currentPos < words.length
  · refine .inl ⟨words[state.currentPos],words.drop (state.currentPos + 1),opened.same,state,reading,Nat.le_of_lt inside,?_⟩
    exact List.drop_eq_getElem_cons inside
  · exact .inr ⟨opened.same,state,reading,Nat.le_of_not_lt inside⟩

theorem behind_drop (identifier : UInt32) (words : List UInt32) : behind identifier words =
    (words.findIdx? (· = identifier)).map fun place => words.drop (place + 1) := by
  induction words with
  | nil => rfl
  | cons word rest ih =>
    rw [behind,List.findIdx?_cons]
    by_cases same : word = identifier
    · rw [if_pos same,decide_eq_true same]
      rfl
    · rw [if_neg same,decide_eq_false same,ih,if_neg Bool.false_ne_true,Option.map_map]
      rfl

section Scans
variable {words rest : List UInt32} {c : Chunk} {identifier : UInt32}

theorem found_nowhere (opened : Opened words c) (nowhere : behind identifier words = none) :
    (found identifier).run c = (.ok false,c) := by
  apply found_none
  rw [behind_drop,Option.map_eq_none_iff] at nowhere
  rw [opened.same]
  exact nowhere

theorem found_standing (opened : Opened words c) (first : behind identifier words = some rest) :
    ∃ c', (found identifier).run c = (.ok true,c') ∧ Standing words rest c' := by
  obtain ⟨state,reading⟩ := opened.reading
  rw [behind_drop,Option.map_eq_some_iff] at first
  obtain ⟨place,first,rfl⟩ := first
  have bound := (List.findIdx?_eq_some_iff_getElem.mp first).1
  refine ⟨_,found_some reading (by rw [opened.same]; exact first),opened.same,_,rfl,?_⟩
  exact ⟨bound,rfl⟩

theorem behind_none : behind identifier words = none ↔ identifier ∉ words := by
  rw [behind_drop,Option.map_eq_none_iff,List.findIdx?_eq_none_iff]
  refine ⟨fun nowhere member => ?_,fun missing word member => ?_⟩
  · have other := nowhere identifier member
    rw [decide_eq_false_iff_not] at other
    exact other rfl
  · rw [decide_eq_false_iff_not]
    exact fun same => missing (same ▸ member)

/-- A scan tells whether the word is there, and leaves the words. -/
theorem found_run (opened : Opened words c) (identifier : UInt32) :
    ∃ c', (found identifier).run c = (.ok (decide (identifier ∈ words)),c') ∧ Opened words c' := by
  cases first : behind identifier words with
  | none =>
    rw [decide_eq_false (behind_none.mp first)]
    exact ⟨c,found_nowhere opened first,opened⟩
  | some rest =>
    have there : identifier ∈ words := by
      by_contra missing
      rw [behind_none.mpr missing] at first
      cases first
    obtain ⟨c',ran,standing⟩ := found_standing opened first
    rw [decide_eq_true there]
    exact ⟨c',ran,standing.opened⟩

/-- A scan leaves the words, whatever it finds. -/
theorem found_total (opened : Opened words c) (identifier : UInt32) :
    ∃ present c', (found identifier).run c = (.ok present,c') ∧ Opened words c' :=
  ⟨_,found_run opened identifier⟩

end Scans

section Words
variable {α : Type} {words rest : List UInt32} {c c' : Chunk} {read : Run Chunk α} {value : UInt32 → α}

/-- A read of one word, or a failure at the end of the words. -/
structure ReadsWord (read : Run Chunk α) (value : UInt32 → α) : Prop where
  full : ∀ words word rest c, Standing words (word :: rest) c →
    ∃ c', read.run c = (.ok (value word),c') ∧ Standing words rest c'
  short : ∀ words c, Ended words c → ∃ code message, read.run c = (.error (.error code message),c)

theorem setPos_standing {next : Nat} (opened : Opened words c) (ahead : Ahead words next rest) :
    Standing words rest (c.setPos next) := by
  obtain ⟨state,reading⟩ := opened.reading
  refine ⟨opened.same,{ state with currentPos := next },?_,ahead⟩
  simp only [Chunk.setPos,reading,Option.map_some]

theorem onPosition_reads {action : List UInt32 → List UInt32 → Run Nat α} {input : List UInt32} {result : α}
    (reads : ∀ data spare, Reads data (action data spare) input result) (standing : Standing words (input ++ rest) c) :
    ∃ c', (onPosition action).run c = (.ok result,c') ∧ Standing words rest c' := by
  obtain ⟨state,reading,ahead⟩ := standing.ahead
  rw [← standing.same] at ahead
  obtain ⟨next,ran,ahead⟩ := reads c.words c.spare state.currentPos rest ahead
  rw [standing.same] at ahead
  exact ⟨_,onPosition_ok reading ran,setPos_standing standing.opened ahead⟩

theorem requireWords_short {data : List UInt32} {dwords pos : Nat} (message : String) (few : data.length < pos + dwords) :
    (requireWords data dwords message).run pos = (.error (.error .eof message),pos) := by
  rw [requireWords,canRead,Action.bind_ok _ (Action.read_apply _ pos),decide_eq_false (Nat.not_le.mpr few)]
  rfl

/-- A read that asks for a word at the end fails where it stands. -/
theorem onPosition_short {action : List UInt32 → List UInt32 → Run Nat α} {message : String}
    (failed : ∀ data spare pos, data.length ≤ pos → (action data spare).run pos = (.error (.error .eof message),pos))
    (ended : Ended words c) : (onPosition action).run c = (.error (.error .eof message),c) := by
  obtain ⟨state,reading,past⟩ := ended.past
  rw [← ended.same] at past
  have ran := failed c.words c.spare state.currentPos past
  simp only [onPosition,reading,ran,setPos_same reading]

theorem chunkReadObjectId_short {data : List UInt32} {pos : Nat} (past : data.length ≤ pos) :
    (chunkReadObjectId data).run pos = (.error (.error .eof "Cannot read beyond data"),pos) := by
  rw [chunkReadObjectId,Action.bind_error _ (requireWords_short _ (Nat.lt_succ_of_le past))]

theorem chunkReadInt_short {data : List UInt32} {pos : Nat} (past : data.length ≤ pos) :
    (chunkReadInt data).run pos = (.error (.error .eof "Cannot read beyond data"),pos) := by
  rw [chunkReadInt,Action.bind_error _ (requireWords_short _ (Nat.lt_succ_of_le past))]

theorem chunkReadDword_short {data : List UInt32} {pos : Nat} (past : data.length ≤ pos) :
    (chunkReadDword data).run pos = (.error (.error .eof "Cannot read beyond data"),pos) := by
  rw [chunkReadDword,Action.bind_error _ (chunkReadInt_short past)]

theorem readsWord_int : ReadsWord readInt UInt32.toInt32 where
  full _ word _ _ standing := onPosition_reads (fun _ _ => reads_chunkReadInt word) standing
  short _ _ ended := ⟨_,_,onPosition_short (fun _ _ _ => chunkReadInt_short) ended⟩

theorem readsWord_float : ReadsWord readFloat id where
  full _ word _ _ standing := onPosition_reads (fun _ _ => reads_chunkReadFloat word) standing
  short _ _ ended := ⟨_,_,onPosition_short (fun _ _ _ => chunkReadObjectId_short) ended⟩

theorem readsWord_objectId : ReadsWord readObjectId id where
  full _ word _ _ standing := onPosition_reads (fun _ _ => reads_chunkReadObjectId word) standing
  short _ _ ended := ⟨_,_,onPosition_short (fun _ _ _ => chunkReadObjectId_short) ended⟩

theorem readsWord_dword : ReadsWord readDword id where
  full _ word _ _ standing := onPosition_reads (fun _ _ => reads_chunkReadDword word) standing
  short _ _ ended := ⟨_,_,onPosition_short (fun _ _ _ => chunkReadDword_short) ended⟩

/-- A read that succeeded had its word in front of it. -/
theorem ReadsWord.success (reads : ReadsWord read value) {result : α} (standing : Standing words rest c)
    (ok : read.run c = (.ok result,c')) :
    ∃ word after, rest = word :: after ∧ result = value word ∧ Standing words after c' := by
  cases rest with
  | nil =>
    obtain ⟨_,_,failed⟩ := reads.short words c standing.ended
    rw [ok] at failed
    cases (Prod.mk.inj failed).1
  | cons word after =>
    obtain ⟨c₁,ran,moved⟩ := reads.full words word after c standing
    obtain ⟨same,rfl⟩ := Prod.mk.inj (ok.symm.trans ran)
    exact ⟨word,after,rfl,Except.ok.inj same,moved⟩

theorem attempt_total (reads : ReadsWord read value) (opened : Opened words c) :
    ∃ result c', (attempt read).run c = (.ok result,c') ∧ Opened words c' := by
  rcases opened.cases with ⟨word,rest,standing⟩ | ended
  · obtain ⟨c₁,ran,moved⟩ := reads.full words word rest c standing
    exact ⟨some (value word),c₁,attempt_ok ran,moved.opened⟩
  · obtain ⟨_,_,failed⟩ := reads.short words c ended
    exact ⟨none,c,attempt_failed failed,opened⟩

/-- The attempt gives the word in front, if there is one. -/
theorem attempt_run (reads : ReadsWord read value) (standing : Standing words rest c) :
    ∃ c', (attempt read).run c = (.ok (rest.head?.map value),c') ∧ Standing words rest.tail c' := by
  cases rest with
  | nil =>
    obtain ⟨_,_,failed⟩ := reads.short words c standing.ended
    exact ⟨c,attempt_failed failed,standing⟩
  | cons word rest =>
    obtain ⟨c₁,ran,moved⟩ := reads.full words word rest c standing
    exact ⟨c₁,attempt_ok ran,moved⟩

/-- So many words are read, or as many as are left. -/
theorem readWhile_run (reads : ReadsWord read value) (count : Nat) (standing : Standing words rest c) :
    ∃ c', (readWhile read count).run c = (.ok ((rest.take count).map value),c') ∧
      Standing words (rest.drop count) c' := by
  induction count generalizing rest c with
  | zero => exact ⟨c,rfl,standing⟩
  | succ count ih =>
    obtain ⟨c₁,ran,moved⟩ := attempt_run reads standing
    rw [readWhile,Action.bind_ok _ ran]
    cases rest with
    | nil => exact ⟨c₁,rfl,moved⟩
    | cons word rest =>
      obtain ⟨c₂,more,stopped⟩ := ih moved
      refine ⟨c₂,?_,stopped⟩
      simp only [List.head?_cons,Option.map_some]
      rw [Action.bind_ok _ more]
      rfl

theorem readWhile_total (reads : ReadsWord read value) (count : Nat) (opened : Opened words c) :
    ∃ values c', (readWhile read count).run c = (.ok values,c') ∧ Opened words c' := by
  induction count generalizing c with
  | zero => exact ⟨[],c,rfl,opened⟩
  | succ count ih =>
    obtain ⟨result,c₁,ran,moved⟩ := attempt_total reads opened
    rw [readWhile,Action.bind_ok _ ran]
    cases result with
    | none => exact ⟨[],c₁,rfl,moved⟩
    | some first =>
      obtain ⟨values,c₂,more,stopped⟩ := ih moved
      refine ⟨first :: values,c₂,?_,stopped⟩
      dsimp only
      rw [Action.bind_ok _ more]
      rfl

end Words

section Totals
variable {α : Type} {words : List UInt32} {c : Chunk}

theorem setPos_opened (opened : Opened words c) (pos : Nat) : Opened words (c.setPos pos) := by
  obtain ⟨state,reading⟩ := opened.reading
  exact ⟨opened.same,{ state with currentPos := pos },by simp only [Chunk.setPos,reading,Option.map_some]⟩

theorem onPosition_total {action : List UInt32 → List UInt32 → Run Nat α} (opened : Opened words c)
    (total : ∀ spare pos, ∃ value next, (action words spare).run pos = (.ok value,next)) :
    ∃ value c', (onPosition action).run c = (.ok value,c') ∧ Opened words c' := by
  obtain ⟨state,reading⟩ := opened.reading
  obtain ⟨value,next,ran⟩ := total c.spare state.currentPos
  rw [← opened.same] at ran
  exact ⟨value,_,onPosition_ok reading ran,setPos_opened opened next⟩

/-- Where the run gives a value or an error, an attempt goes on. -/
theorem attempt_onPosition {action : List UInt32 → List UInt32 → Run Nat α} (opened : Opened words c)
    (gentle : ∀ spare pos, ∃ next, (∃ value, (action words spare).run pos = (.ok value,next)) ∨
      ∃ code message, (action words spare).run pos = (.error (.error code message),next)) :
    ∃ result c', (attempt (onPosition action)).run c = (.ok result,c') ∧ Opened words c' := by
  obtain ⟨state,reading⟩ := opened.reading
  obtain ⟨next,⟨value,ran⟩ | ⟨code,message,ran⟩⟩ := gentle c.spare state.currentPos
  · rw [← opened.same] at ran
    exact ⟨some value,_,attempt_ok (onPosition_ok reading ran),setPos_opened opened next⟩
  · rw [← opened.same] at ran
    have failed : (onPosition action).run c = (.error (.error code message),c.setPos next) := by
      simp only [onPosition,reading,ran]
    exact ⟨none,_,attempt_failed failed,setPos_opened opened next⟩

theorem ckobject_total (opened : Opened words c) : ∃ s c', ckobjectDeserialize.run c = (.ok s,c') ∧ Opened words c' := by
  obtain ⟨hidden,c₁,scanned,opened₁⟩ := found_total opened stateSaveObjectHidden
  rw [ckobjectDeserialize,Action.bind_ok _ scanned]
  cases hidden with
  | true => exact ⟨_,c₁,rfl,opened₁⟩
  | false =>
    obtain ⟨hierarchy,c₂,again,opened₂⟩ := found_total opened₁ stateSaveObjectHieraHidden
    rw [if_neg Bool.false_ne_true,Action.bind_ok _ again]
    exact ⟨_,c₂,rfl,opened₂⟩

/-- The bytes for a buffer of some size, none where they do not fit or are not there. -/
def bytesIn (room : Nat) : List UInt32 → List UInt8
  | [] => []
  | size :: more =>
    if size.toNat ≤ room ∧ (size.toNat + 3) / 4 ≤ more.length then (encodeWords more).take size.toNat else []

/-- Below 2^32 - 3 bytes the rounding of a size does not wrap, and the bytes are there when their words are. -/
theorem fill_reads (data spare : List UInt32) (pos : Nat) {room : Nat} (small : room ≤ 2 ^ 32 - 4) :
    ∃ size next, (chunkReadAndFillBuffer data spare room).run pos = (.ok (bytesIn room (data.drop pos),size),next) := by
  cases ahead : data.drop pos with
  | nil =>
    have ended := List.drop_eq_nil_iff.mp ahead
    have first : (canRead data 1).run pos = (.ok false,pos) := by
      rw [canRead,Action.read_apply,decide_eq_false (by omega)]
    rw [chunkReadAndFillBuffer,Action.bind_ok _ first]
    exact ⟨_,_,rfl⟩
  | cons size more =>
    have length := congrArg List.length ahead
    rw [List.length_drop,List.length_cons] at length
    have first : (canRead data 1).run pos = (.ok true,pos) := by
      rw [canRead,Action.read_apply,decide_eq_true (by omega)]
    have word : data[pos]? = some size := by
      rw [← List.head?_drop,ahead]
      rfl
    have next : (nextWord data).run pos = (.ok size,pos + 1) := by simp only [nextWord,word]
    have behindSize : data.drop (pos + 1) = more := by
      rw [← List.drop_drop,ahead]
      rfl
    rw [chunkReadAndFillBuffer,Action.bind_ok _ first,if_pos rfl,Action.bind_ok _ next,bytesIn]
    by_cases empty : size = 0
    · rw [if_pos empty,empty]
      exact ⟨0,pos + 1,by rw [show (0 : UInt32).toNat = 0 from rfl,List.take_zero,ite_self]; rfl⟩
    · rw [if_neg empty]
      by_cases fits : size.toNat ≤ room
      · have rounded : roundedDwords size = (size.toNat + 3) / 4 := by
          rw [roundedDwords_eq,Nat.mod_eq_of_lt (by omega)]
        rw [if_neg (Nat.not_lt.mpr fits),rounded]
        by_cases enough : (size.toNat + 3) / 4 ≤ more.length
        · have second : (canRead data ((size.toNat + 3) / 4)).run (pos + 1) = (.ok true,pos + 1) := by
            rw [canRead,Action.read_apply,decide_eq_true (by omega)]
          have bytes : size.toNat ≤ (encodeWords ((data ++ spare).drop (pos + 1))).length := by
            rw [length_encodeWords,List.length_drop,List.length_append]
            omega
          have copied : (copyOut data spare size.toNat ((size.toNat + 3) / 4)).run (pos + 1) =
              (.ok ((encodeWords more).take size.toNat),pos + 1 + (size.toNat + 3) / 4) := by
            have front : (encodeWords ((data ++ spare).drop (pos + 1))).take size.toNat = (encodeWords more).take size.toNat := by
              rw [List.drop_append_of_le_length (by omega),behindSize,encodeWords_append,
                List.take_append_of_le_length (by rw [length_encodeWords]; omega)]
            simp only [copyOut,if_pos bytes,front]
          rw [Action.bind_ok _ second,if_pos rfl,Action.bind_ok _ copied,if_pos ⟨fits,enough⟩]
          exact ⟨_,_,rfl⟩
        · have second : (canRead data ((size.toNat + 3) / 4)).run (pos + 1) = (.ok false,pos + 1) := by
            rw [canRead,Action.read_apply,decide_eq_false (by omega)]
          rw [Action.bind_ok _ second,if_neg Bool.false_ne_true,if_neg (fun both => enough both.2)]
          exact ⟨_,_,rfl⟩
      · rw [if_pos (Nat.lt_of_not_le fits),if_neg (fun both => fits both.1)]
        exact ⟨_,_,rfl⟩

theorem sceneObject_total (opened : Opened words c) :
    ∃ s c', ckSceneObjectDeserialize.run c = (.ok s,c') ∧ Opened words c' := by
  obtain ⟨base,c₁,based,opened₁⟩ := ckobject_total opened
  rw [ckSceneObjectDeserialize,Action.bind_ok _ based,Action.bind_ok _ (Action.read_apply _ _),
    Action.bind_ok _ (Action.read_apply _ _)]
  split
  · have small : chunkGetSize c₁ - chunkGetPosition c₁ ≤ 2 ^ 32 - 4 := by
      rw [chunkGetSize]
      omega
    have fills (spare : List UInt32) (pos : Nat) : ∃ result next, (chunkReadAndFillBuffer words spare
        (chunkGetSize c₁ - chunkGetPosition c₁)).run pos = (.ok result,next) := by
      obtain ⟨size,next,ran⟩ := fill_reads words spare pos small
      exact ⟨_,next,ran⟩
    obtain ⟨tail,c₂,ran,opened₂⟩ : ∃ tail c₂, (onPosition fun data spare => chunkReadAndFillBuffer data spare
        (chunkGetSize c₁ - chunkGetPosition c₁)).run c₁ = (.ok tail,c₂) ∧ Opened words c₂ := onPosition_total opened₁ fills
    rw [Action.bind_ok _ ran]
    exact ⟨_,c₂,rfl,opened₂⟩
  · exact ⟨_,c₁,rfl,opened₁⟩

theorem scripts_total (opened : Opened words c) : ∃ ids c', loadScripts.run c = (.ok ids,c') ∧ Opened words c' := by
  obtain ⟨present,c₁,scanned,opened₁⟩ := found_total opened stateSaveScripts
  rw [loadScripts,Action.bind_ok _ scanned]
  cases present with
  | false => exact ⟨[],c₁,rfl,opened₁⟩
  | true =>
    obtain ⟨count,c₂,counted,opened₂⟩ := attempt_total readsWord_dword opened₁
    rw [if_pos rfl,Action.bind_ok _ counted]
    cases count with
    | none => exact ⟨[],c₂,rfl,opened₂⟩
    | some count =>
      dsimp only
      split
      · exact ⟨[],c₂,rfl,opened₂⟩
      · exact readWhile_total readsWord_objectId _ opened₂

theorem priority_total (opened : Opened words c) :
    ∃ priority c', loadPriority.run c = (.ok priority,c') ∧ Opened words c' := by
  obtain ⟨present,c₁,scanned,opened₁⟩ := found_total opened stateSaveDatas
  rw [loadPriority,Action.bind_ok _ scanned]
  cases present with
  | false => exact ⟨0,c₁,rfl,opened₁⟩
  | true =>
    obtain ⟨flag,c₂,flagged,opened₂⟩ := attempt_total readsWord_dword opened₁
    rw [if_pos rfl,Action.bind_ok _ flagged]
    cases flag with
    | none => exact ⟨0,c₂,rfl,opened₂⟩
    | some flag =>
      dsimp only
      split
      · exact ⟨0,c₂,rfl,opened₂⟩
      · obtain ⟨priority,c₃,ran,opened₃⟩ := attempt_total readsWord_int opened₂
        rw [Action.bind_ok _ ran]
        exact ⟨_,c₃,rfl,opened₃⟩

/-- The header of a sequence of a manager takes three words. -/
theorem managerSequence_run {data rest : List UInt32} {pos : Nat} (ahead : Ahead data pos rest) :
    (∃ number d1 d2 types, rest = number :: d1 :: d2 :: types ∧ ∃ next,
      (chunkStartManagerReadSequence data).run pos = (.ok (⟨d1,d2⟩,number.toNat),next) ∧ Ahead data next types) ∨
    (rest.length < 3 ∧ ∃ code message next,
      (chunkStartManagerReadSequence data).run pos = (.error (.error code message),next)) := by
  have length := ahead.length_eq
  rcases rest with _ | ⟨number,rest⟩
  · rw [List.length_nil] at length
    exact .inr ⟨by decide,_,_,pos,Action.bind_error _ (chunkReadDword_short (Nat.le_of_eq length))⟩
  · obtain ⟨next,counted,moved⟩ := reads_chunkReadDword number pos _ ahead
    have start : (chunkStartManagerReadSequence data).run pos = (do
        let managerGuid ← chunkReadGuid data
        pure (managerGuid,number.toNat) : Run Nat (Guid × Nat)).run next := Action.bind_ok _ counted
    have size := moved.length_eq
    rw [start]
    rcases rest with _ | ⟨d1,_ | ⟨d2,types⟩⟩
    · rw [List.length_nil] at size
      exact .inr ⟨Nat.lt_of_sub_eq_succ rfl,_,_,next,Action.bind_error _ (Action.bind_error _ (requireWords_short _ (by omega)))⟩
    · rw [List.length_singleton] at size
      exact .inr ⟨Nat.lt_of_sub_eq_succ rfl,_,_,next,Action.bind_error _ (Action.bind_error _ (requireWords_short _ (by omega)))⟩
    · obtain ⟨last,ran,after⟩ := reads_chunkReadGuid ⟨d1,d2⟩ next types moved
      exact .inl ⟨number,d1,d2,types,rfl,last,Action.bind_ok _ ran,after⟩

theorem managerSequence_gentle (data : List UInt32) (pos : Nat) :
    ∃ next, (∃ value, (chunkStartManagerReadSequence data).run pos = (.ok value,next)) ∨
      ∃ code message, (chunkStartManagerReadSequence data).run pos = (.error (.error code message),next) := by
  by_cases inside : pos ≤ data.length
  · obtain ⟨number,d1,d2,types,_,next,ran,_⟩ | ⟨_,code,message,next,failed⟩ := managerSequence_run ⟨inside,rfl⟩
    · exact ⟨next,.inl ⟨_,ran⟩⟩
    · exact ⟨next,.inr ⟨code,message,failed⟩⟩
  · exact ⟨_,.inr ⟨_,_,Action.bind_error _ (chunkReadDword_short (Nat.le_of_not_le inside))⟩⟩

theorem attributeTypes_total (attrCount : Nat) (ids : List UInt32) (opened : Opened words c) :
    ∃ attributes c', (loadAttributeTypes attrCount ids).run c = (.ok attributes,c') ∧ Opened words c' := by
  obtain ⟨header,c₁,ran,opened₁⟩ : ∃ header c₁, (attempt (onPosition fun data _ =>
      chunkStartManagerReadSequence data)).run c = (.ok header,c₁) ∧ Opened words c₁ :=
    attempt_onPosition opened fun _ pos => managerSequence_gentle words pos
  rw [loadAttributeTypes,Action.bind_ok _ ran]
  rcases header with _ | ⟨managerGuid,seqCount⟩
  · exact ⟨_,c₁,rfl,opened₁⟩
  · dsimp only
    split
    · obtain ⟨types,c₂,more,opened₂⟩ := readWhile_total readsWord_dword attrCount opened₁
      rw [Action.bind_ok _ more]
      exact ⟨_,c₂,rfl,opened₂⟩
    · exact ⟨_,c₁,rfl,opened₁⟩

/-- A count of attributes of -6 to -1, for which the array has less memory than its first entries. -/
def AttributesWrap (words : List UInt32) : Prop :=
  ∃ count rest, behind stateSaveNewAttributes words = some (count :: rest) ∧ 2 ^ 32 - 6 ≤ count.toNat

theorem attributes_total (fits : ¬ AttributesWrap words) (opened : Opened words c) :
    ∃ attributes c', loadAttributes.run c = (.ok attributes,c') ∧ Opened words c' := by
  rw [loadAttributes]
  cases first : behind stateSaveNewAttributes words with
  | none =>
    rw [Action.bind_ok _ (found_nowhere opened first)]
    exact ⟨_,c,rfl,opened⟩
  | some rest =>
    obtain ⟨c₁,scanned,standing⟩ := found_standing opened first
    rw [Action.bind_ok _ scanned,if_pos rfl]
    cases rest with
    | nil =>
      have failed : (onPosition fun data _ => chunkReadObjectSequenceStart data).run c₁ =
          (.error (.error .eof "Cannot read beyond data"),c₁) :=
        onPosition_short (fun _ _ _ past => Action.bind_error _ (chunkReadInt_short past)) standing.ended
      rw [Action.bind_ok _ (attempt_failed failed)]
      exact ⟨_,c₁,rfl,standing.opened⟩
    | cons word rest =>
      have small : word.toNat < 2 ^ 32 - 6 := by
        by_contra large
        exact fits ⟨word,rest,first,Nat.le_of_not_lt large⟩
      obtain ⟨c₂,counted,moved⟩ := onPosition_reads (fun _ _ => reads_extended word) standing
      rw [Action.bind_ok _ (attempt_ok counted)]
      dsimp only
      split
      · exact ⟨_,c₂,rfl,moved.opened⟩
      · have gentle (pos : Nat) : ∃ next, (∃ value, (allocArray (extended word) 4 "").run pos = (.ok value,next)) ∨
            ∃ code message, (allocArray (extended word) 4 "").run pos = (.error (.error code message),next) := by
          rw [allocArray]
          split
          · exact ⟨pos,.inl ⟨(),rfl⟩⟩
          · rw [if_pos (by rw [extended_eq]; split <;> omega)]
            exact ⟨pos,.inr ⟨_,_,rfl⟩⟩
        obtain ⟨allocated,c₃,ran,opened₃⟩ : ∃ allocated c₃, (attempt (onPosition fun _ _ =>
            allocArray (extended word) 4 "")).run c₂ = (.ok allocated,c₃) ∧ Opened words c₃ :=
          attempt_onPosition moved.opened fun _ pos => gentle pos
        rw [Action.bind_ok _ ran]
        cases allocated with
        | none => exact ⟨_,c₃,rfl,opened₃⟩
        | some _ =>
          obtain ⟨ids,c₄,more,opened₄⟩ := readWhile_total readsWord_objectId (extended word) opened₃
          dsimp only
          rw [Action.bind_ok _ more]
          exact attributeTypes_total _ _ opened₄

/-- The first entry is stored to memory that the array does not have. -/
theorem attributes_stop (wraps : AttributesWrap words) (opened : Opened words c) :
    ∃ stop c', loadAttributes.run c = (.error stop,c') := by
  obtain ⟨word,rest,first,large⟩ := wraps
  obtain ⟨c₁,scanned,standing⟩ := found_standing opened first
  obtain ⟨c₂,counted,moved⟩ := onPosition_reads (fun _ _ => reads_extended word) standing
  have size := extended_eq word
  have bound := word.toNat_lt
  rw [if_neg (by omega)] at size
  rw [loadAttributes,Action.bind_ok _ scanned,if_pos rfl,Action.bind_ok _ (attempt_ok counted)]
  dsimp only
  rw [if_neg (by omega)]
  obtain ⟨state,reading,_⟩ := moved.ahead
  have stopped : (attempt (onPosition fun _ _ => allocArray (extended word) 4 "")).run c₂ = (.error (.overwrite 0),c₂) := by
    have ran (pos : Nat) : (allocArray (extended word) 4 "").run pos = (.error (.overwrite 0),pos) := by
      rw [allocArray,if_neg (by omega),if_neg (by omega)]
      rfl
    unfold attempt
    simp only [onPosition,reading,ran,setPos_same reading]
  exact ⟨_,_,Action.bind_error _ stopped⟩

theorem beObject_total (fits : ¬ AttributesWrap words) (opened : Opened words c) :
    ∃ s c', ckBeObjectDeserialize.run c = (.ok s,c') ∧ Opened words c' := by
  obtain ⟨base,c₁,based,opened₁⟩ := sceneObject_total opened
  obtain ⟨scripts,c₂,scripted,opened₂⟩ := scripts_total opened₁
  obtain ⟨priority,c₃,prioritised,opened₃⟩ := priority_total opened₂
  obtain ⟨attributes,c₄,attributed,opened₄⟩ := attributes_total fits opened₃
  rw [ckBeObjectDeserialize,Action.bind_ok _ based,Action.bind_ok _ scripted,Action.bind_ok _ prioritised,
    Action.bind_ok _ attributed]
  exact ⟨_,c₄,rfl,opened₄⟩

theorem beObject_stop (wraps : AttributesWrap words) (opened : Opened words c) :
    ∃ stop c', ckBeObjectDeserialize.run c = (.error stop,c') := by
  obtain ⟨base,c₁,based,opened₁⟩ := sceneObject_total opened
  obtain ⟨scripts,c₂,scripted,opened₂⟩ := scripts_total opened₁
  obtain ⟨priority,c₃,prioritised,opened₃⟩ := priority_total opened₂
  obtain ⟨stop,c₄,stopped⟩ := attributes_stop wraps opened₃
  rw [ckBeObjectDeserialize,Action.bind_ok _ based,Action.bind_ok _ scripted,Action.bind_ok _ prioritised,
    Action.bind_error _ stopped]
  exact ⟨_,_,rfl⟩

end Totals

end Libnmo.Schema

/-! States that are read back from a chunk that was started for their writer. The shape
of what was written decides what is read; a section whose identifier is the first word
is found whatever stands behind it. -/
namespace Libnmo.Schema
open Core Format Lib Lib.Cursor

variable {around : Surroundings} {S : Type} {serialize : Run Chunk Unit} {deserialize : Run Chunk S} {s missing : S} {bound : Nat}
  {shape : List UInt32 → Prop}

/-- The array has the entries that are written. -/
theorem as_firstOf {α : Type} {write : α → Run Chunk Unit} {word : α → UInt32} {values : List α} {count : Nat}
    (each : ∀ a, WritesAs 1 (· = [word a]) (write a)) (enough : count ≤ values.length) :
    WritesAs count (· = (values.take count).map word) (writeFirst write values count) := by
  have all : WritesAs ((values.take count).length + 0) (· = (values.take count).map word ++ []) (writeFirst write values count) := by
    rw [writeFirst]
    apply as_then (as_eachWord each _)
    rw [if_neg (Nat.not_lt.mpr enough)]
    exact as_pure
  rwa [List.append_nil,Nat.add_zero,List.length_take,Nat.min_eq_left enough] at all

theorem as_first {α : Type} {write : α → Run Chunk Unit} {word : α → UInt32} {values : List α} {count : Nat}
    (each : ∀ a, WritesAs 1 (· = [word a]) (write a)) (whole : values.length = count) :
    WritesAs count (· = values.map word) (writeFirst write values count) := by
  have all := as_firstOf each (Nat.le_of_eq whole.symm)
  rwa [List.take_of_length_le (Nat.le_of_eq whole)] at all

theorem startedBack_of (as : WritesAs bound shape serialize) (few : bound < 2 ^ 60)
    (reads : ∀ c : Chunk, shape c.words → c.parserState = some {} → (deserialize.run c).1 = .ok s) :
    startedBack around serialize deserialize = .ok s := by
  obtain ⟨c,wrote,fits⟩ := as.fill around few
  exact readBack_of wrote (Prod.ext (reads { c with parserState := some {} } fits rfl) rfl)

theorem startedBack_success (as : WritesAs bound shape serialize)
    (back : startedBack around serialize deserialize = .ok s) :
    ∃ c : Chunk, shape c.words ∧ c.parserState = some {} ∧ (deserialize.run c).1 = .ok s := by
  obtain ⟨c,c₁,c',wrote,fresh,same,ran⟩ := readBack_success back
  exact ⟨c₁,by rw [same]; exact as.filled wrote,fresh,congrArg Prod.fst ran⟩

/-- The section of a manager begins with the first word. -/
theorem leading_section (missing : S) (action : List UInt32 → List UInt32 → Run Nat S) {c : Chunk} {identifier : UInt32}
    {body : List UInt32} (words : c.words = identifier :: body) (fresh : c.parserState = some {}) :
    Ahead c.words 1 body ∧ ((do
      let present ← found identifier
      (if present then onPosition action else pure missing) : Run Chunk S).run c).1 = ((action c.words c.spare).run 1).1 := by
  have first : c.words.findIdx? (· = identifier) = some 0 := by
    rw [words,List.findIdx?_cons,decide_eq_true rfl]
    rfl
  refine ⟨?_,?_⟩
  · rw [words]
    exact ⟨Nat.le_add_left 1 _,rfl⟩
  · rw [Action.bind_ok _ (found_some fresh first),if_pos rfl]
    rfl

end Libnmo.Schema
