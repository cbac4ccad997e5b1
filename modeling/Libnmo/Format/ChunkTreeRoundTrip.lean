import Libnmo.Format.ChunkTree
import Libnmo.Format.ChunkVersion1RoundTrip
import Libnmo.Lib.Reads

/-! The nested format read back. The words of a tree are given by recursion over
its children, the writer appends exactly these and the reader rebuilds from them
the tree that the format stores: each field cut to its width, each list where its
option bit is set. -/
namespace Libnmo.Format
open Core Lib Lib.LittleEndian Lib.Cursor

mutual
def treeWords : Chunk → List UInt32
  | c@{ chunks := children, .. } =>
    [packVersionInfo c,count32 c.words] ++ (c.words ++ (optionalList c.chunkOptions optionIds c.ids ++
      ((if hasFlag c.chunkOptions optionChn then count32 children :: childrenWords children else []) ++
        optionalList c.chunkOptions optionMan c.managers)))
termination_by structural c => c
def childrenWords : List Chunk → List UInt32
  | [] => []
  | child :: children => treeWords child ++ childrenWords children
termination_by structural children => children
end

mutual
/-- The tree that the nested format stores of a chunk. -/
def stored : Chunk → Chunk
  | c@{ chunks := children, .. } => { chunkCreate with
    dataVersion := c.dataVersion &&& 0xFF
    chunkClassId := c.chunkClassId
    chunkVersion := c.chunkVersion &&& 0xFF
    chunkOptions := c.chunkOptions &&& 0xFF
    data := if c.words = [] then none else some c.words
    ids := if hasFlag c.chunkOptions optionIds then c.ids else []
    chunks := if hasFlag c.chunkOptions optionChn then storedChildren children else []
    managers := if hasFlag c.chunkOptions optionMan then c.managers else [] }
termination_by structural c => c
def storedChildren : List Chunk → List Chunk
  | [] => []
  | child :: children => stored child :: storedChildren children
termination_by structural children => children
end

theorem storedChildren_eq_map (children : List Chunk) : storedChildren children = children.map stored := by
  induction children with
  | nil => rfl
  | cons child children ih => rw [storedChildren,ih,List.map_cons]

/-- List lengths whose size in bytes fits the 32-bit product of the reader, at every depth. -/
inductive TreeFits : Chunk → Prop
  | node (c : Chunk) (data : c.words.length < 2 ^ 30) (ids : c.ids.length < 2 ^ 30)
      (managers : c.managers.length < 2 ^ 30) (count : c.chunks.length < 2 ^ 32)
      (children : ∀ child ∈ c.chunks, TreeFits child) : TreeFits c

section
variable (c : Chunk)

theorem chunkCalcSize_eq : chunkCalcSize c =
    4 + 4 + c.dataSize * 4 + optionalSize c.chunkOptions optionIds (c.ids.length * 4) +
      optionalSize c.chunkOptions optionChn (childrenCalcSize c.chunks) +
      optionalSize c.chunkOptions optionMan (c.managers.length * 4) := by
  cases c
  rfl

theorem treeWords_eq : treeWords c =
    [packVersionInfo c,count32 c.words] ++ (c.words ++ (optionalList c.chunkOptions optionIds c.ids ++
      ((if hasFlag c.chunkOptions optionChn then count32 c.chunks :: childrenWords c.chunks else []) ++
        optionalList c.chunkOptions optionMan c.managers))) := by
  cases c
  rfl

theorem stored_eq : stored c = { chunkCreate with
    dataVersion := c.dataVersion &&& 0xFF
    chunkClassId := c.chunkClassId
    chunkVersion := c.chunkVersion &&& 0xFF
    chunkOptions := c.chunkOptions &&& 0xFF
    data := if c.words = [] then none else some c.words
    ids := if hasFlag c.chunkOptions optionIds then c.ids else []
    chunks := if hasFlag c.chunkOptions optionChn then c.chunks.map stored else []
    managers := if hasFlag c.chunkOptions optionMan then c.managers else [] } := by
  cases c
  rw [stored,storedChildren_eq_map]

theorem chunkSerializeInternal_eq (size : Nat) : chunkSerializeInternal size c = (do
    writeU32 size (packVersionInfo c)
    writeU32 size (count32 c.words)
    writeDwords size c.words
    writeList size c.chunkOptions optionIds c.ids
    (if hasFlag c.chunkOptions optionChn then do
      writeU32 size (count32 c.chunks)
      childrenSerializeInternal size c.chunks
    else pure ())
    writeList size c.chunkOptions optionMan c.managers) := by
  cases c
  rfl

theorem length_optionalList_size (flags flag : UInt32) (list : List UInt32) :
    4 * (optionalList flags flag list).length = optionalSize flags flag (list.length * 4) := by
  rw [length_optionalList,optionalSize]
  split <;> omega

/-- The calculator predicts the size of the words, at every depth. -/
theorem length_treeWords : 4 * (treeWords c).length = chunkCalcSize c := by
  induction c using Chunk.ind with
  | node c inherited =>
    have children : ∀ list : List Chunk, (∀ child ∈ list, 4 * (treeWords child).length = chunkCalcSize child) →
        4 * (childrenWords list).length = childrenCalcSize list := by
      intro list each
      induction list with
      | nil => rfl
      | cons child list ih =>
        have head := each child (by simp)
        have tail := ih fun other member => each other (by simp [member])
        rw [childrenWords,childrenCalcSize,List.length_append]
        omega
    have below := children c.chunks inherited
    have ids := length_optionalList_size c.chunkOptions optionIds c.ids
    have managers := length_optionalList_size c.chunkOptions optionMan c.managers
    rw [treeWords_eq,chunkCalcSize_eq]
    simp only [List.length_append,List.length_cons,List.length_nil,Chunk.dataSize]
    rw [optionalSize.eq_1 c.chunkOptions optionChn]
    split
    · simp only [List.length_cons]
      omega
    · simp only [List.length_nil]
      omega

end
section Writing
variable {size : Nat} {written : List UInt8}

theorem writeBytes_room (bytes : List UInt8) (room : written.length + bytes.length ≤ size) :
    (writeBytes size bytes).run written = (.ok (),written ++ bytes) := by
  simp only [writeBytes,if_neg (Nat.not_lt.mpr room)]

theorem writeU32_room (value : UInt32) (room : written.length + 4 ≤ size) :
    (writeU32 size value).run written = (.ok (),written ++ encodeWords [value]) := by
  rw [writeU32,writeBytes_room _ (by simpa using room)]
  simp

theorem writeDwords_room (list : List UInt32) (room : written.length + 4 * list.length ≤ size) :
    (writeDwords size list).run written = (.ok (),written ++ encodeWords list) := by
  cases list with
  | nil => simp [writeDwords]
  | cons word list =>
    rw [writeDwords,if_pos (by simp)]
    exact writeBytes_room _ (by rw [length_encodeWords]; exact room)

theorem writeList_room (flags flag : UInt32) (list : List UInt32)
    (room : written.length + 4 * (optionalList flags flag list).length ≤ size) :
    (writeList size flags flag list).run written =
      (.ok (),written ++ encodeWords (optionalList flags flag list)) := by
  rw [length_optionalList] at room
  unfold writeList optionalList
  split
  · rename_i flagged
    rw [if_pos flagged] at room
    rw [Action.bind_ok _ (writeU32_room (count32 list) (by omega)),
      writeDwords_room list (by simp; omega)]
    simp
  · simp

/-- With room for its words, the writer appends the words of the tree. -/
theorem chunkSerializeInternal_room (c : Chunk) : ∀ written : List UInt8,
    written.length + 4 * (treeWords c).length ≤ size →
      (chunkSerializeInternal size c).run written = (.ok (),written ++ encodeWords (treeWords c)) := by
  induction c using Chunk.ind with
  | node c inherited =>
    have children : ∀ (list : List Chunk),
        (∀ child ∈ list, ∀ written : List UInt8, written.length + 4 * (treeWords child).length ≤ size →
          (chunkSerializeInternal size child).run written = (.ok (),written ++ encodeWords (treeWords child))) →
        ∀ written : List UInt8, written.length + 4 * (childrenWords list).length ≤ size →
          (childrenSerializeInternal size list).run written =
            (.ok (),written ++ encodeWords (childrenWords list)) := by
      intro list each
      induction list with
      | nil => simp [childrenSerializeInternal,childrenWords]
      | cons child list ih =>
        intro written room
        rw [childrenWords,List.length_append] at room
        rw [childrenSerializeInternal,Action.bind_ok _ (each child (by simp) written (by omega)),
          ih (fun other member => each other (by simp [member])) _ (by simp; omega)]
        simp [childrenWords]
    intro written room
    have words := treeWords_eq c
    rw [words] at room
    simp only [List.length_append,List.length_cons,List.length_nil] at room
    rw [chunkSerializeInternal_eq,words,
      Action.bind_ok _ (writeU32_room _ (by omega)),
      Action.bind_ok _ (writeU32_room _ (by simp; omega)),
      Action.bind_ok _ (writeDwords_room c.words (by simp; omega)),
      Action.bind_ok _ (writeList_room _ _ c.ids (by simp; omega))]
    cases flagged : hasFlag c.chunkOptions optionChn with
    | true =>
      simp only [flagged,if_true,List.length_cons] at room ⊢
      rw [Action.bind_ok _ ((Action.bind_ok _ (writeU32_room _ (by simp; omega))).trans
          (children c.chunks inherited _ (by simp; omega))),
        writeList_room _ _ c.managers (by simp; omega)]
      simp
    | false =>
      simp only [flagged,Bool.false_eq_true,if_false,List.length_nil] at room ⊢
      rw [Action.bind_ok _ (Action.pure_apply _ _),writeList_room _ _ c.managers (by simp; omega)]
      simp

theorem chunkSerialize_eq (c : Chunk) :
    chunkSerialize c = .ok (encodeWords (treeWords c),chunkCalcSize c) := by
  have room : ([] : List UInt8).length + 4 * (treeWords c).length ≤ chunkCalcSize c := by
    rw [length_treeWords]
    simp
  have run := chunkSerializeInternal_room c [] room
  rw [chunkSerialize,run]
  simp

end Writing

section Reading
variable {beyond : Nat → UInt32} {buffer : List UInt8}

theorem reads_bytes (bytes : List UInt8) : Reads buffer (readBytes buffer bytes.length) bytes bytes := by
  intro pos rest ahead
  refine ⟨pos + bytes.length,?_,ahead.skip⟩
  simp only [readBytes,if_neg (Nat.not_lt.mpr ahead.bound),ahead.slice_eq]

theorem reads_u32 (word : UInt32) : Reads buffer (readU32 buffer) (encodeWords [word]) word := by
  have chain := reads_return (f := fun bytes => (decodeWords bytes).headD 0)
    (show Reads buffer _ _ _ from reads_bytes (encodeWords [word]))
  rw [decodeWords_encodeWords] at chain
  exact chain

theorem reads_dwords (list : List UInt32) (message : String) (small : list.length < 2 ^ 30) :
    Reads buffer (readDwords beyond buffer (count32 list) message) (encodeWords list) list := by
  have count := toNat_count32 list (by omega)
  unfold readDwords
  split
  · rename_i positive
    have length : (count32 list * 4).toNat = (encodeWords list).length := by
      rw [UInt32.toNat_mul,count,length_encodeWords]
      change list.length * 4 % 2 ^ 32 = 4 * list.length
      omega
    have some : count32 list * 4 ≠ 0 := by
      have := UInt32.lt_iff_toNat_lt.mp positive
      change 0 < (count32 list).toNat at this
      intro zero
      rw [zero,length_encodeWords] at length
      change 0 = 4 * list.length at length
      omega
    simp only [if_neg some,length]
    have chain := reads_return (f := fun bytes => decodeWords bytes ++
      (List.range ((count32 list).toNat - (decodeWords bytes).length)).map beyond)
      (show Reads buffer _ _ _ from reads_bytes (encodeWords list))
    simpa [count] using chain
  · rename_i empty
    have zero : list = [] := by
      have := UInt32.not_lt.mp empty
      have := UInt32.le_iff_toNat_le.mp this
      rw [count] at this
      exact List.length_eq_zero_iff.mp (Nat.le_zero.mp this)
    subst zero
    exact reads_pure []

theorem reads_list {options flags flag : UInt32} (list : List UInt32) (message : String)
    (same : hasFlag options flag = hasFlag flags flag) (small : list.length < 2 ^ 30) :
    Reads buffer (readList beyond buffer options flag message) (encodeWords (optionalList flags flag list))
      (if hasFlag flags flag then list else []) := by
  unfold readList optionalList
  rw [same]
  cases hasFlag flags flag with
  | false => exact reads_pure []
  | true =>
    show Reads buffer _ (encodeWords ([count32 list] ++ list)) list
    rw [encodeWords_append]
    exact reads_bind (reads_u32 (count32 list)) (reads_dwords list message small)

theorem encodeWords_childrenWords (children : List Chunk) :
    encodeWords (childrenWords children) = children.flatMap fun child => encodeWords (treeWords child) := by
  induction children with
  | nil => rfl
  | cons child children ih => rw [childrenWords,encodeWords_append,ih,List.flatMap_cons]

theorem packVersionInfo_eq (c : Chunk) : packVersionInfo c =
    bytesWord c.dataVersion.toUInt8 c.chunkClassId c.chunkVersion.toUInt8 c.chunkOptions.toUInt8 := by
  simp [packVersionInfo,and_low_byte,bytesWord]

theorem length_treeWords_child {children : List Chunk} {child : Chunk} (member : child ∈ children) :
    (treeWords child).length ≤ (childrenWords children).length := by
  induction children with
  | nil => simp at member
  | cons first children ih =>
    rw [childrenWords,List.length_append]
    rcases List.mem_cons.mp member with rfl | inside
    · omega
    · have := ih inside
      omega

theorem data_present (c : Chunk) (small : c.words.length < 2 ^ 30) :
    (if count32 c.words > 0 then some c.words else none) = if c.words = [] then none else some c.words := by
  have count := toNat_count32 c.words (by omega)
  by_cases empty : c.words = []
  · simp [empty,count32]
  · have positive : count32 c.words > 0 := by
      rw [gt_iff_lt,UInt32.lt_iff_toNat_lt,count]
      exact List.length_pos_iff.mpr empty
    rw [if_pos positive,if_neg empty]

/-- With fuel for its depth, the reader rebuilds the stored tree from the words of the tree. -/
theorem reads_tree {c : Chunk} (fits : TreeFits c) (fuel : Nat) (enough : (treeWords c).length ≤ fuel) :
    Reads buffer (chunkDeserializeInternal beyond buffer fuel) (encodeWords (treeWords c)) (stored c) := by
  induction fits generalizing fuel with
  | node c data ids managers count children ih =>
    have words := treeWords_eq c
    rw [words] at enough
    simp only [List.length_append,List.length_cons,List.length_nil] at enough
    obtain ⟨fuel,rfl⟩ : ∃ below, fuel = below + 1 := ⟨fuel - 1,by omega⟩
    have info := packVersionInfo_eq c
    have byte₀ : packVersionInfo c &&& 0xFF = c.dataVersion &&& 0xFF := by
      rw [info,and_low_byte,bytesWord_byte0,and_low_byte]
    have byte₁ : (packVersionInfo c >>> 8) &&& 0xFF = c.chunkClassId.toUInt32 := by
      rw [info,and_low_byte,bytesWord_byte1]
    have byte₂ : (packVersionInfo c >>> 16) &&& 0xFF = c.chunkVersion &&& 0xFF := by
      rw [info,and_low_byte,bytesWord_byte2,and_low_byte]
    have byte₃ : (packVersionInfo c >>> 24) &&& 0xFF = c.chunkOptions &&& 0xFF := by
      rw [info,and_low_byte,bytesWord_byte3,and_low_byte]
    have flag (f : UInt32) (low : 0xFF &&& f = f) :
        hasFlag (c.chunkOptions &&& 0xFF) f = hasFlag c.chunkOptions f := by
      rw [and_low_byte,hasFlag_lowByte _ f low]
    rw [words,stored_eq,chunkDeserializeInternal]
    simp only [encodeWords_append]
    rw [show encodeWords [packVersionInfo c,count32 c.words] =
      encodeWords [packVersionInfo c] ++ encodeWords [count32 c.words] by rw [← encodeWords_append]; rfl,
      List.append_assoc]
    refine reads_bind (reads_u32 _) ?_
    rw [byte₃]
    refine reads_bind (reads_u32 _) ?_
    refine reads_bind (reads_dwords c.words _ data) ?_
    refine reads_bind (reads_list c.ids _ (flag optionIds rfl) ids) ?_
    refine reads_bind (show Reads buffer _ _ (if hasFlag c.chunkOptions optionChn then c.chunks.map stored else []) from ?_) ?_
    · rw [flag optionChn rfl]
      cases flagged : hasFlag c.chunkOptions optionChn with
      | false => exact reads_pure []
      | true =>
        simp only [flagged,if_true,List.length_cons] at enough ⊢
        show Reads buffer _ (encodeWords ([count32 c.chunks] ++ childrenWords c.chunks)) _
        rw [encodeWords_append]
        refine reads_bind (reads_u32 _) ?_
        rw [toNat_count32 c.chunks count,encodeWords_childrenWords]
        refine reads_times c.chunks _ _ fun child member => ih child member fuel ?_
        have := length_treeWords_child member
        omega
    · have chain := reads_return (f := fun managers => { chunkCreate with
          dataVersion := c.dataVersion &&& 0xFF
          chunkClassId := c.chunkClassId
          chunkVersion := c.chunkVersion &&& 0xFF
          chunkOptions := c.chunkOptions &&& 0xFF
          data := if c.words = [] then none else some c.words
          ids := if hasFlag c.chunkOptions optionIds then c.ids else []
          chunks := if hasFlag c.chunkOptions optionChn then c.chunks.map stored else []
          managers := managers })
        (show Reads buffer (readList beyond buffer _ _ _) _ _ from reads_list c.managers "Failed to allocate managers"
          (flag optionMan rfl) managers)
      rw [byte₀,byte₁,byte₂,data_present c data,UInt8.toUInt8_toUInt32]
      exact chain

end Reading

/-- Every tree is serialized into as many bytes as the calculator predicts, and read back as the tree
that the nested format stores. -/
theorem chunkDeserialize_chunkSerialize (beyond : Nat → UInt32) (c : Chunk) (fits : TreeFits c) :
    ∃ bytes, chunkSerialize c = .ok (bytes,chunkCalcSize c) ∧ bytes.length = chunkCalcSize c ∧
      chunkDeserialize beyond bytes = .ok (stored c) := by
  have size := length_treeWords c
  have total : (encodeWords (treeWords c)).length = chunkCalcSize c := by rw [length_encodeWords,size]
  refine ⟨_,chunkSerialize_eq c,total,?_⟩
  have minimum : ¬ (encodeWords (treeWords c)).length < 8 := by
    rw [total,chunkCalcSize_eq]
    omega
  rw [chunkDeserialize,if_neg minimum]
  exact reads_start (reads_tree fits _ (by rw [length_encodeWords]; omega))

def treeSample : Chunk where
  chunkClassId := 7
  chunkVersion := chunkVersion4
  chunkOptions := optionIds ||| optionChn
  data := some [1,2,3]
  ids := [0]
  chunks := [{ data := some [9] },{ chunkOptions := optionMan, managers := [4,5] }]

theorem treeSample_fits : TreeFits treeSample := by
  refine .node _ (by decide) (by decide) (by decide) (by decide) fun child member => ?_
  simp only [treeSample,List.mem_cons,List.not_mem_nil,or_false] at member
  rcases member with rfl | rfl <;>
    exact .node _ (by decide) (by decide) (by decide) (by decide) fun child none => by simp at none

theorem treeSample_restored :
    ∃ bytes, chunkSerialize treeSample = .ok (bytes,chunkCalcSize treeSample) ∧
      bytes.length = chunkCalcSize treeSample ∧
      chunkDeserialize (fun _ => 0) bytes = .ok (stored treeSample) :=
  chunkDeserialize_chunkSerialize (fun _ => 0) treeSample treeSample_fits

/-- A payload of `2 ^ 30` words has the 32-bit length zero, for which there is no memory. -/
theorem deserialize_wrapped (beyond : Nat → UInt32) (c : Chunk) (wrapped : c.words.length = 2 ^ 30) :
    chunkDeserialize beyond (encodeWords (treeWords c)) =
      .error (.error .nomem "Failed to allocate chunk data") := by
  have size := length_treeWords c
  have ahead := ahead_start (encodeWords (treeWords c))
  generalize buffer : encodeWords (treeWords c) = buf at ahead ⊢
  have length : buf.length = chunkCalcSize c := by rw [← buffer,length_encodeWords,size]
  have minimum : ¬ buf.length < 8 := by
    rw [length,chunkCalcSize_eq]
    omega
  obtain ⟨fuel,shape⟩ : ∃ fuel, buf.length = fuel + 1 := ⟨buf.length - 1,by omega⟩
  have front : Ahead buf 0 (encodeWords [packVersionInfo c] ++ (encodeWords [count32 c.words] ++
      encodeWords (c.words ++ (optionalList c.chunkOptions optionIds c.ids ++
        ((if hasFlag c.chunkOptions optionChn then count32 c.chunks :: childrenWords c.chunks else []) ++
          optionalList c.chunkOptions optionMan c.managers))))) := by
    rw [← encodeWords_append,← encodeWords_append]
    have same := treeWords_eq c
    rw [← buffer,same] at ahead
    rw [← buffer,same]
    exact ahead
  obtain ⟨first,ran,front⟩ := reads_u32 (packVersionInfo c) 0 _ front
  obtain ⟨second,ran',front⟩ := reads_u32 (count32 c.words) first _ front
  have count : count32 c.words = 2 ^ 30 := by
    rw [count32,wrapped]
    rfl
  have failed : (readDwords beyond buf (count32 c.words) "Failed to allocate chunk data").run second =
      (.error (.error .nomem "Failed to allocate chunk data"),second) := by
    rw [count,readDwords,if_pos (by decide)]
    rfl
  rw [chunkDeserialize,if_neg minimum,shape,chunkDeserializeInternal,Action.bind_ok _ ran,
    Action.bind_ok _ ran',Action.bind_error _ failed]

/-- The nested format has no field for `class_id`, and the reader refuses a payload of `2 ^ 30` words. -/
theorem tree_not_restored :
    (chunkSerialize { classId := 5 } = .ok ([0,0,0,0, 0,0,0,0],8) ∧
      (chunkDeserialize (fun _ => 0) [0,0,0,0, 0,0,0,0]).map Chunk.classId = .ok 0) ∧
    ∃ bytes, chunkSerialize { data := some (List.replicate (2 ^ 30) 0) } =
        .ok (bytes,chunkCalcSize { data := some (List.replicate (2 ^ 30) 0) }) ∧
      chunkDeserialize (fun _ => 0) bytes = .error (.error .nomem "Failed to allocate chunk data") :=
  ⟨⟨by rw [chunkSerialize_eq]; rfl,rfl⟩,_,chunkSerialize_eq _,
    deserialize_wrapped _ _ (List.length_replicate ..)⟩

end Libnmo.Format
