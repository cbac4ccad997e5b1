import Libnmo.Format.DataSectionSize
import Libnmo.Format.FileHeader
import Libnmo.Format.StreamRecords
import Libnmo.Format.StreamWriter

/-! What a stream writer leaves in its file: the header, the Header1 bytes of the caller, and the
records of the objects as they are or deflated. -/
namespace Libnmo.Format
open Core Lib Lib.LittleEndian Lib.Patch

/-- What the deflate library has made of what it has taken, and the streams that it ends with. -/
structure Packing (deflater : DeflateLibrary) where
  streams : List UInt8 → List UInt8 → Prop
  packs : deflater.State → List UInt8 → List UInt8 → Prop
  started : ∀ level z, deflater.init level = some z → packs z [] []
  step : ∀ z taken made finish input room, packs z taken made → (deflater.deflate z finish input room).status = .ok →
    packs (deflater.deflate z finish input room).next (taken ++ input.take (deflater.deflate z finish input room).taken)
      (made ++ (deflater.deflate z finish input room).made)
  ended : ∀ z taken made input room, packs z taken made → (deflater.deflate z true input room).status = .streamEnd →
    streams (taken ++ input) (made ++ (deflater.deflate z true input room).made)

section
variable {deflater : DeflateLibrary} {sink : FileSink} {w t : StreamWriter deflater}

theorem sinkWrite_success {bytes : List UInt8} {message : String} (ok : (sinkWrite sink bytes message).run w = (.ok (),t)) :
    t = { w with file := w.file.write 0 bytes } := by
  simp only [sinkWrite] at ok
  split at ok
  · rename_i file wrote
    rw [← (Prod.mk.inj ok).2,sink.whole _ _ _ wrote]
  · cases ok

theorem writeFields_success {bytes : List UInt8} {message : String} {fields : List (List UInt8 × String)}
    (ok : (writeFields sink ((bytes,message) :: fields)).run w = (.ok (),t)) :
    t = { w with file := w.file.write 0 (bytes ++ fields.flatMap Prod.fst) } := by
  induction fields generalizing w bytes message with
  | nil =>
    obtain ⟨_,u,wrote,ok⟩ := Action.bind_success ok
    rw [← (Prod.mk.inj ok).2,sinkWrite_success wrote,List.flatMap_nil,List.append_nil]
  | cons field fields ih =>
    obtain ⟨_,u,wrote,ok⟩ := Action.bind_success ok
    rw [ih ok,sinkWrite_success wrote]
    simp only [ByteFile.write_write,List.flatMap_cons]

theorem headerFields_serialize (header : FileHeader) :
    (headerFields header).flatMap Prod.fst = fileHeaderSerialize header := by
  rw [headerFields,fileHeaderSerialize,List.flatMap_append]
  split
  · rfl
  · rfl

theorem writeHeader_success (ok : (writeHeader sink).run w = (.ok (),t)) :
    t = { w with file := w.file.write 0 (fileHeaderSerialize w.header) } := by
  obtain ⟨_,_,read,ok⟩ := Action.bind_success ok
  cases read
  rw [writeFields_success ok,← headerFields_serialize]
  rfl

/-- What a write of data keeps as it is. -/
structure SameWriter (w t : StreamWriter deflater) : Prop where
  header : t.header = w.header
  compressData : t.compressData = w.compressData
  bufferSize : t.bufferSize = w.bufferSize
  objectsWritten : t.objectsWritten = w.objectsWritten
  finalized : t.finalized = w.finalized

theorem SameWriter.trans {u : StreamWriter deflater} (first : SameWriter w t) (next : SameWriter t u) : SameWriter w u where
  header := next.header.trans first.header
  compressData := next.compressData.trans first.compressData
  bufferSize := next.bufferSize.trans first.bufferSize
  objectsWritten := next.objectsWritten.trans first.objectsWritten
  finalized := next.finalized.trans first.finalized

/-- What the stream does with data that is counted. -/
structure SameTotal (w t : StreamWriter deflater) : Prop extends SameWriter w t where
  dataUncompressedBytes : t.dataUncompressedBytes = w.dataUncompressedBytes

theorem SameTotal.refl (w : StreamWriter deflater) : SameTotal w w := ⟨⟨rfl,rfl,rfl,rfl,rfl⟩,rfl⟩

theorem SameTotal.trans {u : StreamWriter deflater} (first : SameTotal w t) (next : SameTotal t u) : SameTotal w u :=
  ⟨first.toSameWriter.trans next.toSameWriter,next.dataUncompressedBytes.trans first.dataUncompressedBytes⟩

variable {front made taken data : List UInt8}

/-- What was made behind the front of the file: a part that is written, and the filled part of the output buffer. -/
structure Buffered (front : List UInt8) (w : StreamWriter deflater) (made : List UInt8) : Prop where
  parts : ∃ out, made = out ++ w.outBuffer.take w.nextOut ∧ w.file = .atEnd (front ++ out) ∧
    w.dataCompressedBytes = out.length
  room : w.nextOut + w.availOut = w.bufferSize
  small : w.bufferSize < 2 ^ 32

/-- The output buffer goes to the file, and what was made stays. -/
structure Flushed (front : List UInt8) (w t : StreamWriter deflater) (made : List UInt8) : Prop where
  buffered : Buffered front t made
  empty : t.nextOut = 0
  zstream : t.zstream = w.zstream
  pending : t.pending = w.pending
  same : SameTotal w t

theorem flushOutput_flushed {message : String} (buffered : Buffered front w made)
    (ok : (flushOutput sink w.nextOut message).run w = (.ok (),t)) : Flushed front w t made := by
  obtain ⟨_,_,read,ok⟩ := Action.bind_success ok
  cases read
  obtain ⟨_,u,wrote,ok⟩ := Action.bind_success ok
  obtain rfl := (Prod.mk.inj ok).2
  rw [sinkWrite_success wrote]
  obtain ⟨out,parts,file,counted⟩ := buffered.parts
  have within : w.nextOut ≤ w.bufferSize := buffered.room ▸ Nat.le_add_right ..
  refine ⟨⟨⟨made,?_,?_,?_⟩,?_,buffered.small⟩,rfl,rfl,rfl,⟨⟨rfl,rfl,rfl,rfl,rfl⟩,rfl⟩⟩
  · exact (List.append_nil _).symm
  · dsimp only
    rw [file,ByteFile.write_atEnd,parts,List.append_assoc]
  · dsimp only
    rw [parts,counted,List.length_append,List.length_take_of_le within]
  · exact (Nat.zero_add _).trans (Nat.mod_eq_of_lt buffered.small)

theorem flushFull_buffered {message : String} (buffered : Buffered front w made)
    (ok : (flushFull sink message).run w = (.ok (),t)) :
    Buffered front t made ∧ t.zstream = w.zstream ∧ t.pending = w.pending ∧ SameTotal w t := by
  obtain ⟨_,_,read,ok⟩ := Action.bind_success ok
  cases read
  dsimp only [id] at ok
  split at ok
  · rename_i full
    have whole : w.bufferSize = w.nextOut := by
      rw [← buffered.room,full,Nat.add_zero]
    rw [whole] at ok
    have flushed := flushOutput_flushed buffered ok
    exact ⟨flushed.buffered,flushed.zstream,flushed.pending,flushed.same⟩
  · obtain rfl := (Prod.mk.inj ok).2
    exact ⟨buffered,rfl,rfl,.refl w⟩

theorem flushProduced_flushed {message : String} (buffered : Buffered front w made)
    (ok : (flushProduced sink message).run w = (.ok (),t)) : Flushed front w t made := by
  obtain ⟨_,_,read,ok⟩ := Action.bind_success ok
  cases read
  dsimp only [id] at ok
  have produced : w.bufferSize - w.availOut = w.nextOut := by
    rw [← buffered.room,Nat.add_sub_cancel]
  simp only [produced] at ok
  split at ok
  · exact flushOutput_flushed buffered ok
  · rename_i none
    obtain rfl := (Prod.mk.inj ok).2
    exact ⟨buffered,Nat.eq_zero_of_not_pos none,rfl,rfl,.refl w⟩

/-- The stream has taken `taken`, and what it has made lies behind the front of the file. -/
def Deflating (packing : Packing deflater) (front : List UInt8) (w : StreamWriter deflater) (taken : List UInt8) : Prop :=
  ∃ z made, w.zstream = some z ∧ packing.packs z taken made ∧ Buffered front w made

variable {packing : Packing deflater}

/-- Neither the count of the input nor the input itself is part of the stream. -/
theorem Deflating.counting (deflating : Deflating packing front w taken) (total : Nat) (pending : List UInt8) :
    Deflating packing front { w with dataUncompressedBytes := total, pending := pending } taken := by
  obtain ⟨z,made,started,packs,buffered⟩ := deflating
  exact ⟨z,made,started,packs,buffered.parts,buffered.room,buffered.small⟩

theorem Flushed.deflating {z : deflater.State} (flushed : Flushed front w t made) (started : w.zstream = some z)
    (packs : packing.packs z taken made) : Deflating packing front t taken :=
  ⟨z,made,flushed.zstream.trans started,packs,flushed.buffered⟩

/-- Bytes that are made go behind those in the output buffer. -/
theorem Buffered.grown (buffered : Buffered front w made) {bytes : List UInt8} (fits : bytes.length ≤ w.availOut)
    (z : Option deflater.State) (pending : List UInt8) :
    Buffered front { w with
      zstream := z
      pending := pending
      outBuffer := overwrite w.outBuffer w.nextOut bytes
      nextOut := w.nextOut + bytes.length
      availOut := w.availOut - bytes.length } (made ++ bytes) := by
  obtain ⟨out,parts,file,counted⟩ := buffered.parts
  have room := buffered.room
  have within : w.nextOut + bytes.length ≤ w.outBuffer.length := by
    rw [StreamWriter.bufferSize] at room
    omega
  have size := length_overwrite w.outBuffer w.nextOut bytes within
  refine ⟨⟨out,?_,file,counted⟩,?_,?_⟩
  · dsimp only
    rw [take_overwrite _ _ _ within,parts,List.append_assoc]
  · rw [StreamWriter.bufferSize] at room ⊢
    dsimp only
    omega
  · rw [StreamWriter.bufferSize]
    dsimp only
    rw [size]
    exact buffered.small

/-- What one call makes is behind what was made before it. -/
theorem callDeflate_deflating (finish : Bool) (deflating : Deflating packing front w taken) :
    ∃ status count t, (callDeflate finish).run w = (.ok status,t) ∧ SameTotal w t ∧
      (status = .ok → Deflating packing front t (taken ++ w.pending.take count) ∧ t.pending = w.pending.drop count) ∧
      (status = .bufError → Deflating packing front t taken ∧ t.pending = w.pending) ∧
      (status = .streamEnd → finish = true →
        ∃ stream, packing.streams (taken ++ w.pending) stream ∧ Buffered front t stream) := by
  obtain ⟨z,made,started,packs,buffered⟩ := deflating
  have fits := deflater.made_le z finish w.pending w.availOut
  have grown := buffered.grown fits (some (deflater.deflate z finish w.pending w.availOut).next)
    (w.pending.drop (deflater.deflate z finish w.pending w.availOut).taken)
  have within : w.nextOut + (deflater.deflate z finish w.pending w.availOut).made.length ≤ w.outBuffer.length := by
    have room := buffered.room
    rw [StreamWriter.bufferSize] at room
    omega
  rw [callDeflate]
  simp only [started]
  refine ⟨_,(deflater.deflate z finish w.pending w.availOut).taken,_,rfl,⟨⟨rfl,rfl,?_,rfl,rfl⟩,rfl⟩,?_,?_,?_⟩
  · exact length_overwrite _ _ _ within
  · intro fine
    exact ⟨⟨_,_,rfl,packing.step z taken made finish _ _ packs fine,grown⟩,rfl⟩
  · intro nothing
    obtain ⟨none,empty,same⟩ := deflater.idle z finish _ _ nothing
    refine ⟨⟨z,made,congrArg some same,packs,?_⟩,?_⟩
    · rw [empty,List.append_nil] at grown
      rw [empty]
      exact grown
    · dsimp only
      rw [none,List.drop_zero]
  · rintro finished rfl
    exact ⟨_,packing.ended z taken made _ _ packs finished,grown⟩

/-- The loop gives all of its input to the stream. -/
theorem deflateLoop_deflating {fuel : Nat} (deflating : Deflating packing front w taken)
    (ok : (deflateLoop sink fuel).run w = (.ok (),t)) :
    Deflating packing front t (taken ++ w.pending) ∧ t.pending = [] ∧ SameTotal w t := by
  induction fuel generalizing w taken with
  | zero => cases ok
  | succ fuel ih =>
    obtain ⟨_,_,read,ok⟩ := Action.bind_success ok
    cases read
    split at ok
    · rename_i none
      obtain rfl := (Prod.mk.inj ok).2
      refine ⟨?_,none,.refl w⟩
      rwa [none,List.append_nil]
    · obtain ⟨z,made,started,packs,buffered⟩ := deflating
      obtain ⟨_,u,flushed,ok⟩ := Action.bind_success ok
      obtain ⟨buffered,kept,pending,same⟩ := flushFull_buffered buffered flushed
      obtain ⟨status,count,v,called,same',fine,idle,_⟩ :=
        callDeflate_deflating false ⟨z,made,kept.trans started,packs,buffered⟩
      rw [Action.bind_ok _ called,Action.bind_ok _ (Action.read_apply _ _)] at ok
      rw [← pending]
      split at ok
      · rename_i nothing
        obtain ⟨deflating,left⟩ := idle nothing.1
        obtain ⟨deflating,empty,later⟩ := ih deflating ok
        rw [left] at deflating
        exact ⟨deflating,empty,(same.trans same').trans later⟩
      · split at ok
        · cases ok
        · rename_i went
          obtain ⟨⟨z,made,started,packs,buffered⟩,left⟩ := fine (not_not.mp went)
          obtain ⟨_,x,flushed,ok⟩ := Action.bind_success ok
          have flushed := flushProduced_flushed buffered flushed
          obtain ⟨deflating,empty,later⟩ := ih (flushed.deflating started packs) ok
          rw [flushed.pending,left,List.append_assoc,List.take_append_drop] at deflating
          exact ⟨deflating,empty,((same.trans same').trans flushed.same).trans later⟩

/-- The stream is ended and written as a whole. -/
theorem finishLoop_streams {fuel : Nat} (deflating : Deflating packing front w taken) (all : w.pending = [])
    (ok : (finishLoop sink fuel).run w = (.ok (),t)) : ∃ stream, packing.streams taken stream ∧
      t.file = .atEnd (front ++ stream) ∧ t.dataCompressedBytes = stream.length ∧ SameTotal w t := by
  induction fuel generalizing w taken with
  | zero => cases ok
  | succ fuel ih =>
    obtain ⟨z,made,started,packs,buffered⟩ := deflating
    obtain ⟨_,u,flushed,ok⟩ := Action.bind_success ok
    obtain ⟨buffered,kept,pending,same⟩ := flushFull_buffered buffered flushed
    rw [← pending] at all
    obtain ⟨status,count,v,called,same',fine,_,ended⟩ :=
      callDeflate_deflating true ⟨z,made,kept.trans started,packs,buffered⟩
    rw [Action.bind_ok _ called] at ok
    obtain ⟨_,x,flushed,ok⟩ := Action.bind_success ok
    rw [all,List.take_nil,List.append_nil,List.drop_nil] at fine
    split at ok
    · rename_i went
      obtain ⟨⟨z,made,started,packs,buffered⟩,left⟩ := fine went
      have flushed := flushProduced_flushed buffered flushed
      obtain ⟨stream,streams,file,counted,later⟩ :=
        ih (flushed.deflating started packs) (flushed.pending.trans left) ok
      exact ⟨stream,streams,file,counted,((same.trans same').trans flushed.same).trans later⟩
    · split at ok
      · cases ok
      · rename_i last
        obtain rfl := (Prod.mk.inj ok).2
        obtain ⟨stream,streams,buffered⟩ := ended (not_not.mp last) rfl
        have flushed := flushProduced_flushed buffered flushed
        obtain ⟨out,parts,file,counted⟩ := flushed.buffered.parts
        rw [flushed.empty,List.take_zero,List.append_nil] at parts
        rw [all,List.append_nil,parts] at streams
        exact ⟨out,streams,file,counted,(same.trans same').trans flushed.same⟩

/-- No stream was started, or one that has taken the section so far. -/
def Streaming (packing : Packing deflater) (front : List UInt8) (w : StreamWriter deflater) (data : List UInt8) : Prop :=
  (w.zstream = none ∧ data = [] ∧ w.file = .atEnd front ∧ w.dataCompressedBytes = 0) ∨
    (Deflating packing front w data ∧ w.pending = [] ∧ data ≠ [])

theorem startDeflate_deflating (ok : startDeflate.run w = (.ok (),t)) (small : w.bufferSize < 2 ^ 32)
    (streaming : Streaming packing front w data) : Deflating packing front t data ∧ SameTotal w t := by
  rw [startDeflate] at ok
  rcases streaming with ⟨unstarted,rfl,file,counted⟩ | ⟨⟨z,made,started,packs,buffered⟩,_⟩
  · simp only [unstarted] at ok
    split at ok
    · cases ok
    · rename_i z ready
      obtain rfl := (Prod.mk.inj ok).2
      refine ⟨⟨z,[],rfl,packing.started _ z ready,⟨⟨[],rfl,?_,counted⟩,?_,small⟩⟩,⟨⟨rfl,rfl,rfl,rfl,rfl⟩,rfl⟩⟩
      · rwa [List.append_nil]
      · exact (Nat.zero_add _).trans (Nat.mod_eq_of_lt small)
  · simp only [started] at ok
    obtain rfl := (Prod.mk.inj ok).2
    exact ⟨⟨z,made,started,packs,buffered⟩,.refl w⟩

/-- The section so far, as it is or on its way through the stream. -/
structure Holding (packing : Packing deflater) (front : List UInt8) (w : StreamWriter deflater) (data : List UInt8) : Prop where
  total : w.dataUncompressedBytes = data.length
  plain : w.compressData = false → w.file = .atEnd (front ++ data) ∧ w.dataCompressedBytes = data.length
  packed : w.compressData = true → Streaming packing front w data

/-- The deflate library is given the size of the buffer in 32 bits. -/
def SmallOutput (w : StreamWriter deflater) : Prop := w.compressData = true → w.bufferSize < 2 ^ 32

theorem SameWriter.small (same : SameWriter w t) (small : SmallOutput w) : SmallOutput t := by
  rw [SmallOutput,same.compressData,same.bufferSize]
  exact small

theorem writerWriteData_holding {fuel : Nat} {bytes : List UInt8} (some : bytes ≠ []) (few : bytes.length < 2 ^ 32)
    (small : SmallOutput w) (holding : Holding packing front w data) (ok : (writerWriteData sink fuel bytes).run w = (.ok (),t)) :
    Holding packing front t (data ++ bytes) ∧ SameWriter w t := by
  rw [writerWriteData,Action.bind_ok _ (Action.update_apply _ _),Action.bind_ok _ (Action.read_apply _ _)] at ok
  have total := congrArg (· + bytes.length) holding.total
  rw [← List.length_append] at total
  cases kind : w.compressData with
  | true =>
    have streaming : Streaming packing front { w with dataUncompressedBytes := w.dataUncompressedBytes + bytes.length } data := by
      rcases holding.packed kind with unstarted | ⟨deflating,empty⟩
      · exact .inl unstarted
      · exact .inr ⟨deflating.counting _ _,empty⟩
    have more : data ++ bytes ≠ [] := fun none => some (List.append_eq_nil_iff.mp none).2
    rw [if_pos kind] at ok
    obtain ⟨_,u,ready,ok⟩ := Action.bind_success ok
    obtain ⟨deflating,same⟩ := startDeflate_deflating ready (small kind) streaming
    rw [Action.bind_ok _ (Action.update_apply _ _)] at ok
    obtain ⟨deflating,empty,later⟩ := deflateLoop_deflating (deflating.counting u.dataUncompressedBytes _) ok
    dsimp only at deflating
    rw [Nat.mod_eq_of_lt few,List.take_length] at deflating
    have whole : SameTotal { w with dataUncompressedBytes := w.dataUncompressedBytes + bytes.length } t :=
      same.trans ⟨⟨later.header,later.compressData,later.bufferSize,later.objectsWritten,later.finalized⟩,later.dataUncompressedBytes⟩
    refine ⟨⟨whole.dataUncompressedBytes.trans total,fun plain => ?_,fun _ => .inr ⟨deflating,empty,more⟩⟩,
      ⟨whole.header,whole.compressData,whole.bufferSize,whole.objectsWritten,whole.finalized⟩⟩
    rw [whole.compressData] at plain
    exact absurd (plain.symm.trans kind) Bool.false_ne_true
  | false =>
    obtain ⟨file,counted⟩ := holding.plain kind
    rw [if_neg (by rw [kind]; exact Bool.false_ne_true)] at ok
    have absurdly : ∀ {p : Prop}, w.compressData = true → p := fun packed => absurd (kind.symm.trans packed) Bool.false_ne_true
    rw [if_neg some] at ok
    obtain ⟨_,u,wrote,ok⟩ := Action.bind_success ok
    obtain rfl := (Prod.mk.inj ok).2
    rw [sinkWrite_success wrote]
    refine ⟨⟨total,fun _ => ⟨?_,?_⟩,absurdly⟩,⟨rfl,rfl,rfl,rfl,rfl⟩⟩
    · dsimp only
      rw [file,ByteFile.write_atEnd,List.append_assoc]
    · dsimp only
      rw [counted,List.length_append]

/-- The stored ID of an object, in files older than version 7. -/
def storedId (fileVersion : UInt32) (object : StreamObject) : Option UInt32 :=
  if fileVersion < 7 then some object.fileIndex else none

/-- The bytes of an object's record. -/
def objectRecord (fileVersion : UInt32) (object : StreamObject) : List UInt8 :=
  recordFields (storedId fileVersion object) (count32 (chunkBytes object.chunk)) ++ chunkBytes object.chunk

/-- The bytes of the data section, before they are deflated. -/
def sectionOf (header : FileHeader) (objects : List StreamObject) : List UInt8 :=
  objects.flatMap (objectRecord header.fileVersion)

theorem writeWord_holding {fuel : Nat} {word : UInt32} (small : SmallOutput w) (holding : Holding packing front w data)
    (ok : (writerWriteData sink fuel (wordBytes word)).run w = (.ok (),t)) :
    Holding packing front t (data ++ wordBytes word) ∧ SameWriter w t :=
  writerWriteData_holding (List.cons_ne_nil _ _) (Nat.lt_of_le_of_lt (Nat.le_of_eq (length_wordBytes word)) (by decide))
    small holding ok

theorem writeId_holding {fuel : Nat} {object : StreamObject} (small : SmallOutput w) (holding : Holding packing front w data)
    (ok : (if w.header.fileVersion < 7 then writerWriteData sink fuel (wordBytes object.fileIndex) else pure ()).run w =
      (.ok (),t)) : Holding packing front t (data ++ idBytes (storedId w.header.fileVersion object)) ∧ SameWriter w t := by
  rw [storedId]
  split at ok
  · rename_i old
    rw [if_pos old]
    exact writeWord_holding small holding ok
  · rename_i late
    obtain rfl := (Prod.mk.inj ok).2
    rw [if_neg late,idBytes,List.append_nil]
    exact ⟨holding,⟨rfl,rfl,rfl,rfl,rfl⟩⟩

theorem writeChunk_holding {fuel : Nat} {bytes : List UInt8} (few : bytes.length < 2 ^ 32) (small : SmallOutput w)
    (holding : Holding packing front w data)
    (ok : (if bytes.length > 0 then writerWriteData sink fuel bytes else pure ()).run w = (.ok (),t)) :
    Holding packing front t (data ++ bytes) ∧ SameWriter w t := by
  split at ok
  · rename_i some
    exact writerWriteData_holding (List.length_pos_iff.mp some) few small holding ok
  · rename_i none
    obtain rfl := (Prod.mk.inj ok).2
    rw [List.length_eq_zero_iff.mp (Nat.eq_zero_of_not_pos none),List.append_nil]
    exact ⟨holding,⟨rfl,rfl,rfl,rfl,rfl⟩⟩

/-- The number of records is no part of the section. -/
theorem Holding.counting (holding : Holding packing front w data) (count : UInt32) :
    Holding packing front { w with objectsWritten := count } data := by
  refine ⟨holding.total,holding.plain,fun packed => ?_⟩
  rcases holding.packed packed with unstarted | ⟨⟨z,made,started,packs,buffered⟩,drained⟩
  · exact .inl unstarted
  · exact .inr ⟨⟨z,made,started,packs,buffered.parts,buffered.room,buffered.small⟩,drained⟩

/-- A record goes behind the section, if the header allows for one more. -/
theorem writeObject_holding {fuel : Nat} {object : StreamObject} (few : (chunkBytes object.chunk).length < 2 ^ 32)
    (small : SmallOutput w) (holding : Holding packing front w data) (ok : (writeObject sink fuel object).run w = (.ok (),t)) :
    Holding packing front t (data ++ objectRecord w.header.fileVersion object) ∧ SmallOutput t ∧ t.header = w.header ∧
      t.compressData = w.compressData ∧ t.objectsWritten = w.objectsWritten + 1 ∧ t.finalized = w.finalized ∧
      (w.header.objectCount ≠ 0 → w.objectsWritten < w.header.objectCount) := by
  rw [writeObject,Action.bind_ok _ (Action.read_apply _ _)] at ok
  dsimp only [id] at ok
  obtain ⟨_,ok⟩ := Action.check_success ok
  obtain ⟨within,ok⟩ := Action.check_success ok
  rw [recordPayload_eq,Action.bind_ok _ (Action.lift_apply _ _)] at ok
  obtain ⟨_,u,wroteId,ok⟩ := Action.bind_success ok
  obtain ⟨holding,same⟩ := writeId_holding small holding wroteId
  obtain ⟨_,v,wroteSize,ok⟩ := Action.bind_success ok
  obtain ⟨holding,same'⟩ := writeWord_holding (same.small small) holding wroteSize
  obtain ⟨_,x,wroteChunk,ok⟩ := Action.bind_success ok
  obtain ⟨holding,same''⟩ := writeChunk_holding few (same'.small (same.small small)) holding wroteChunk
  have whole := (same.trans same').trans same''
  obtain rfl := (Prod.mk.inj ok).2
  refine ⟨?_,whole.small small,whole.header,whole.compressData,congrArg (· + 1) whole.objectsWritten,whole.finalized,
    fun some => ?_⟩
  · rw [objectRecord,recordFields,← List.append_assoc,← List.append_assoc]
    exact holding.counting _
  · exact UInt32.not_le.mp fun all => within ⟨some,all⟩

/-- The records go behind the section one by one, no more of them than the header declares. -/
theorem writeObjects_holding {fuel : Nat} {objects : List StreamObject}
    (few : ∀ object ∈ objects, (chunkBytes object.chunk).length < 2 ^ 32) (small : objects ≠ [] → SmallOutput w)
    (holding : Holding packing front w data) (ok : (writeObjects sink fuel objects).run w = (.ok (),t)) :
    Holding packing front t (data ++ objects.flatMap (objectRecord w.header.fileVersion)) ∧ t.header = w.header ∧
      t.compressData = w.compressData ∧ t.finalized = w.finalized ∧
      (w.header.objectCount ≠ 0 → w.objectsWritten ≤ w.header.objectCount →
        w.objectsWritten.toNat + objects.length ≤ w.header.objectCount.toNat) := by
  induction objects generalizing w data with
  | nil =>
    obtain rfl := (Prod.mk.inj ok).2
    rw [List.flatMap_nil,List.append_nil]
    exact ⟨holding,rfl,rfl,rfl,fun _ fits => UInt32.le_iff_toNat_le.mp fits⟩
  | cons object objects ih =>
    rw [List.forall_mem_cons] at few
    obtain ⟨_,u,wrote,ok⟩ := Action.bind_success ok
    obtain ⟨holding,small,header,compressData,counted,finalized,below⟩ :=
      writeObject_holding few.1 (small (List.cons_ne_nil _ _)) holding wrote
    obtain ⟨holding,header',compressData',finalized',within⟩ := ih few.2 (fun _ => small) holding ok
    rw [header] at holding header' within
    refine ⟨?_,header',compressData'.trans compressData,finalized'.trans finalized,fun some _ => ?_⟩
    · rwa [List.flatMap_cons,← List.append_assoc]
    · have less := UInt32.lt_iff_toNat_lt.mp (below some)
      have next : u.objectsWritten.toNat = w.objectsWritten.toNat + 1 := by
        have bound := w.header.objectCount.toNat_lt
        rw [counted,UInt32.toNat_add]
        exact Nat.mod_eq_of_lt (by change _ + 1 < _; omega)
      have fits := within some (UInt32.le_iff_toNat_le.mpr (by omega))
      rw [List.length_cons]
      omega

/-- The bytes of a section in the file. -/
inductive StoredAs (packing : Packing deflater) : Bool → List UInt8 → List UInt8 → Prop
  | plain (data : List UInt8) : StoredAs packing false data data
  | empty : StoredAs packing true [] []
  | packed {data stream : List UInt8} (some : data ≠ []) (streams : packing.streams data stream) :
    StoredAs packing true data stream

theorem finishDeflate_stored {fuel : Nat} (holding : Holding packing front w data)
    (ok : (finishDeflate sink fuel).run w = (.ok (),t)) : ∃ stored, StoredAs packing w.compressData data stored ∧
      t.file = .atEnd (front ++ stored) ∧ t.dataCompressedBytes = stored.length ∧ t.dataUncompressedBytes = data.length ∧
      t.header = w.header := by
  rw [finishDeflate,Action.bind_ok _ (Action.read_apply _ _)] at ok
  dsimp only [id] at ok
  cases kind : w.compressData with
  | false =>
    obtain ⟨file,counted⟩ := holding.plain kind
    rw [if_neg (fun packed => Bool.false_ne_true (kind.symm.trans packed.1))] at ok
    obtain rfl := (Prod.mk.inj ok).2
    exact ⟨data,.plain data,file,counted,holding.total,rfl⟩
  | true =>
    rcases holding.packed kind with ⟨unstarted,rfl,file,counted⟩ | ⟨deflating,empty,some⟩
    · rw [if_neg (by rw [unstarted]; exact fun started => Bool.false_ne_true started.2)] at ok
      obtain rfl := (Prod.mk.inj ok).2
      refine ⟨[],.empty,?_,counted,holding.total,rfl⟩
      rwa [List.append_nil]
    · obtain ⟨z,made,started,packs,buffered⟩ := deflating
      rw [if_pos ⟨kind,by rw [started]; rfl⟩] at ok
      obtain ⟨_,u,finished,ok⟩ := Action.bind_success ok
      obtain rfl := (Prod.mk.inj ok).2
      obtain ⟨stream,streams,file,counted,same⟩ := finishLoop_streams ⟨z,made,started,packs,buffered⟩ empty finished
      exact ⟨stream,.packed some streams,file,counted,same.dataUncompressedBytes.trans holding.total,same.header⟩

/-- The header with the sizes of its data section. -/
def FileHeader.sized (header : FileHeader) (packSize unpackSize : Nat) : FileHeader :=
  { header with dataPackSize := UInt32.ofNat packSize, dataUnpackSize := UInt32.ofNat unpackSize }

theorem streamWriterFinalize_content {fuel : Nat} {header1 : List UInt8} (open' : w.finalized = false)
    (holding : Holding packing (fileHeaderSerialize w.header ++ header1) w data)
    (ok : (streamWriterFinalize sink fuel).run w = (.ok (),t)) : ∃ stored, StoredAs packing w.compressData data stored ∧
      t.file.content = fileHeaderSerialize (w.header.sized stored.length data.length) ++ header1 ++ stored := by
  rw [streamWriterFinalize,Action.bind_ok _ (Action.read_apply _ _),open',if_neg Bool.false_ne_true] at ok
  obtain ⟨_,u,finished,ok⟩ := Action.bind_success ok
  obtain ⟨stored,storedAs,file,packSize,unpackSize,header⟩ := finishDeflate_stored holding finished
  rw [Action.bind_ok _ (Action.update_apply _ _)] at ok
  obtain ⟨_,v,wrote,ok⟩ := Action.bind_success ok
  obtain rfl := (Prod.mk.inj ok).2
  refine ⟨stored,storedAs,?_⟩
  rw [writeHeader_success wrote]
  dsimp only
  have sized : { u.header with
      dataPackSize := UInt32.ofNat u.dataCompressedBytes
      dataUnpackSize := UInt32.ofNat u.dataUncompressedBytes } = w.header.sized stored.length data.length := by
    rw [packSize,unpackSize,header]
    rfl
  have size : (fileHeaderSerialize (w.header.sized stored.length data.length)).length = (fileHeaderSerialize w.header).length := by
    rw [length_fileHeaderSerialize,length_fileHeaderSerialize]
    rfl
  rw [sized,ByteFile.write_start,file,size]
  dsimp only [ByteFile.atEnd]
  rw [List.append_assoc (fileHeaderSerialize w.header),List.drop_left,List.append_assoc]

/-- The Header1 bytes that the caller has the writer write. -/
def header1Given : Option StreamWriterOptions → List UInt8
  | some options => match options.header1Data with
    | some data => data.take options.header1Size
    | none => []
  | none => []

/-- The size that the header declares for them is theirs, where the writer is not given fewer. -/
def Header1Sized : Option StreamWriterOptions → Prop
  | some options => ∀ data, options.header1Data = some data → (header1Given (some options)).length = options.header1Size
  | none => True

theorem writeHeader1_success {options : Option StreamWriterOptions} {content : List UInt8} (last : w.file = .atEnd content)
    (ok : (writeHeader1 sink options).run w = (.ok (),t)) :
    t = { w with file := .atEnd (content ++ header1Given options) } ∧ Header1Sized options := by
  have still : { w with file := .atEnd (content ++ []) } = w := by
    rw [List.append_nil,← last]
  cases options with
  | none =>
    obtain rfl := (Prod.mk.inj ok).2
    exact ⟨still.symm,trivial⟩
  | some options =>
    rw [writeHeader1] at ok
    rw [header1Given,Header1Sized]
    cases given : options.header1Data with
    | none =>
      simp only [given] at ok ⊢
      obtain rfl := (Prod.mk.inj ok).2
      exact ⟨still.symm,nofun⟩
    | some data =>
      simp only [given] at ok ⊢
      split at ok
      · obtain ⟨enough,ok⟩ := Action.check_success ok
        rw [sinkWrite_success ok,last,ByteFile.write_atEnd]
        refine ⟨rfl,fun _ _ => ?_⟩
        rw [header1Given,given]
        exact List.length_take_of_le (Nat.not_lt.mp enough)
      · rename_i none
        have none := Nat.eq_zero_of_not_pos none
        obtain rfl := (Prod.mk.inj ok).2
        rw [none,List.take_zero]
        refine ⟨still.symm,fun _ _ => ?_⟩
        rw [header1Given,given]
        dsimp only
        rw [none]
        rfl

/-- The header as the writer first writes it. -/
def headerWritten (header : FileHeader) (options : Option StreamWriterOptions) : FileHeader :=
  writerHeader header (writesCompressed header options) options

theorem streamWriterCreate_holding {header : FileHeader} {options : Option StreamWriterOptions}
    {memory : Memory (writerBufferSize options)} (packing : Packing deflater)
    (created : streamWriterCreate sink header options memory = some w) :
    Holding packing (fileHeaderSerialize w.header ++ header1Given options) w [] ∧ w.header = headerWritten header options ∧
      w.compressData = writesCompressed header options ∧ (w.compressData = true → w.bufferSize = writerBufferSize options) ∧
      w.objectsWritten = 0 ∧ w.finalized = false ∧ Header1Sized options := by
  rw [streamWriterCreate] at created
  split at created
  · rename_i ran
    obtain rfl := Option.some.inj created
    obtain ⟨_,u,wrote,ran⟩ := Action.bind_success ran
    obtain rfl := writeHeader_success wrote
    obtain ⟨rfl,sized⟩ := writeHeader1_success (ByteFile.write_atEnd 0 _ []) ran
    refine ⟨⟨rfl,fun _ => ⟨?_,rfl⟩,fun _ => .inl ⟨rfl,rfl,rfl,rfl⟩⟩,rfl,rfl,fun packed => ?_,rfl,rfl,sized⟩
    · dsimp only
      rw [List.append_nil]
      rfl
    · dsimp only [StreamWriter.bufferSize] at packed ⊢
      rw [if_pos packed,memory.sized]
  · cases created

/-- What a writer leaves that has accepted all of the objects. -/
structure StreamContent (packing : Packing deflater) (header : FileHeader) (options : Option StreamWriterOptions)
    (objects : List StreamObject) (content : List UInt8) : Prop where
  parts : ∃ stored, StoredAs packing (writesCompressed header options) (sectionOf header objects) stored ∧
    content = fileHeaderSerialize ((headerWritten header options).sized stored.length (sectionOf header objects).length) ++
      header1Given options ++ stored
  header1 : Header1Sized options
  within : header.objectCount ≠ 0 → objects.length ≤ header.objectCount.toNat

theorem streamWritten_content {fuel : Nat} {header : FileHeader} {options : Option StreamWriterOptions}
    {memory : Memory (writerBufferSize options)} {objects : List StreamObject} {content : List UInt8}
    (packing : Packing deflater)
    (small : objects ≠ [] → writesCompressed header options = true → writerBufferSize options < 2 ^ 32)
    (few : ∀ object ∈ objects, (chunkBytes object.chunk).length < 2 ^ 32)
    (written : streamWritten sink deflater fuel header options memory objects = some content) :
    StreamContent packing header options objects content := by
  rw [streamWritten] at written
  split at written
  · cases written
  · rename_i w created
    obtain ⟨holding,same,compressed,size,none,unfinished,sized⟩ := streamWriterCreate_holding packing created
    have small : objects ≠ [] → SmallOutput w := fun some packed => by
      rw [size packed]
      exact small some (compressed.symm.trans packed)
    split at written
    · rename_i t ran
      obtain rfl := Option.some.inj written
      obtain ⟨_,u,wrote,ran⟩ := Action.bind_success ran
      obtain ⟨holding,header',compressData,finalized,within⟩ := writeObjects_holding few small holding wrote
      rw [List.nil_append,← header'] at holding
      obtain ⟨stored,storedAs,parts⟩ := streamWriterFinalize_content (finalized.trans unfinished) holding ran
      have version : u.header.fileVersion = header.fileVersion := by
        rw [header',same]
        rfl
      rw [compressData,compressed,version] at storedAs
      rw [version,header',same] at parts
      rw [same,none] at within
      refine ⟨⟨stored,storedAs,parts⟩,sized,fun some => ?_⟩
      have fits := within some (UInt32.le_iff_toNat_le.mpr (Nat.zero_le _))
      exact (Nat.zero_add _).symm.trans_le fits
    · cases written

end

end Libnmo.Format
