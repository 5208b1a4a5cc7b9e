import AgenticRag.Ingestion.Chunking

/-! Local file storage: a stream is written to a temporary file beside its target and moved there
once it is whole. Any step may raise. -/
namespace AgenticRag.Ingestion
open Python

inductive StorageException where
  | storage | emptyFile | fileTooLarge | unsafeStorageKey | value | fileExists
  | raised (error : Nat)
  deriving DecidableEq

/-- The parts of a path below the root. -/
abbrev Path := List Str

/-- The regular files below the root, by path. -/
structure FileSystem where
  files : Path → Option (List UInt8)

namespace FileSystem

/-- Writing to the file at the path, which is open. -/
def append (fs : FileSystem) (path : Path) (content : List UInt8) : FileSystem :=
  ⟨fun p => if p = path then (fs.files path).map (· ++ content) else fs.files p⟩

/-- `open("xb")` of a path at which nothing is. -/
def create (fs : FileSystem) (path : Path) : FileSystem :=
  ⟨fun p => if p = path then some [] else fs.files p⟩

/-- `unlink(missing_ok=True)`. -/
def unlink (fs : FileSystem) (path : Path) : FileSystem :=
  ⟨fun p => if p = path then none else fs.files p⟩

/-- `os.replace(source, target)`. -/
def replace (fs : FileSystem) (source target : Path) : FileSystem :=
  ⟨fun p => if p = target then fs.files source else if p = source then none else fs.files p⟩

end FileSystem

structure StoredFile where
  storageKey : Str
  sizeBytes : Nat
  sha256 : Str
  prefixBytes : List UInt8

/-- A storage: for which paths the resolved parent lies beneath the root. -/
structure LocalFileStorage where
  parentInside : Path → Bool

def prefixSize : Nat := 4096

/-- `PurePosixPath(storage_key).parts` of a relative key. -/
def keyParts (storageKey : Str) : Path :=
  (storageKey.splitOn (ord '/')).filter fun part => !([[], str "."].contains part)

/-- `_resolve_key`. -/
def resolveKey (storageKey : Str) : Except StorageException Path :=
  if storageKey.head? = some (ord '/') ∨ keyParts storageKey = [] ∨
      (keyParts storageKey).contains (str "..") = true then .error .unsafeStorageKey
  else .ok (keyParts storageKey)

/-- `target.with_name(f".{target.name}.{uuid4().hex}.tmp")`. -/
def temporaryPath (target : Path) (hex : Str) : Path :=
  target.dropLast ++ [ord '.' :: (target.getLastD [] ++ ord '.' :: (hex ++ str ".tmp"))]

/-- What one `source.read` does; after the last one the source is at its end. -/
inductive SourceRead where
  | chunk (bytes : List UInt8)
  | raised (error : StorageException)

/-- The steps of `store` that may raise, besides the reads. -/
inductive StoreStep where
  | openFile
  | write (index : Nat)
  | flush | fsync | close | replaceFile

/-- Which steps raise, and how much of a failed write is in the file. -/
structure StoreFaults where
  raises : StoreStep → Option StorageException
  landed : Nat → Nat

/-- No step raises. -/
def noFaults : StoreFaults := ⟨fun _ => none, fun _ => 0⟩

/-- The variables of the loop over the chunks; `digested` is what the digest was updated with. -/
structure Copying where
  sizeBytes : Nat
  digested : List UInt8
  prefixBytes : List UInt8

section Store
variable (faults : StoreFaults) (temporary : Path) (maxBytes : Int)

/-- The loop over the chunks. -/
def copyChunks (index : Nat) (copying : Copying) (fs : FileSystem) :
    List SourceRead → Except StorageException Copying × FileSystem
  | [] => (.ok copying, fs)
  | .raised error :: _ => (.error error, fs)
  | .chunk chunk :: source =>
    if chunk = [] then (.ok copying, fs)
    else
      let sizeBytes := copying.sizeBytes + chunk.length
      if sizeBytes > maxBytes then (.error .fileTooLarge, fs)
      else
        let digested := copying.digested ++ chunk
        let prefixBytes := if copying.prefixBytes.length < prefixSize then
          copying.prefixBytes ++ chunk.take (prefixSize - copying.prefixBytes.length)
          else copying.prefixBytes
        match faults.raises (.write index) with
        | some error => (.error error, fs.append temporary (chunk.take (faults.landed index)))
        | none =>
          copyChunks (index + 1) ⟨sizeBytes, digested, prefixBytes⟩ (fs.append temporary chunk) source

/-- The body of the inner `try`. -/
def fillTemporary (fs : FileSystem) (source : List SourceRead) :
    Except StorageException Copying × FileSystem :=
  match copyChunks faults temporary maxBytes 0 ⟨0, [], []⟩ fs source with
  | (.error error, fs) => (.error error, fs)
  | (.ok copying, fs) =>
    if copying.sizeBytes = 0 then (.error .emptyFile, fs)
    else match faults.raises .flush with
      | some error => (.error error, fs)
      | none => match faults.raises .fsync with
        | some error => (.error error, fs)
        | none => (.ok copying, fs)

/-- Opening, filling and closing the temporary file; what closing it raises replaces the rest. -/
def writeTemporary (fs : FileSystem) (source : List SourceRead) :
    Except StorageException Copying × FileSystem :=
  match faults.raises .openFile with
  | some error => (.error error, fs)
  | none =>
    if (fs.files temporary).isSome then (.error .fileExists, fs)
    else
      let (filled, fs) := fillTemporary faults temporary maxBytes (fs.create temporary) source
      match faults.raises .close with
      | some error => (.error error, fs)
      | none => (filled, fs)

end Store

/-- `store`. -/
def LocalFileStorage.store (storage : LocalFileStorage) (sha256 : Sha256) (hex : Str)
    (faults : StoreFaults) (fs : FileSystem) (source : List SourceRead) (storageKey : Str)
    (maxBytes : Int) : Except StorageException StoredFile × FileSystem :=
  match resolveKey storageKey with
  | .error error => (.error error, fs)
  | .ok target =>
    if !storage.parentInside target then (.error .unsafeStorageKey, fs)
    else
      let temporary := temporaryPath target hex
      match writeTemporary faults temporary maxBytes fs source with
      | (.error error, fs) => (.error error, fs.unlink temporary)
      | (.ok copying, fs) =>
        match faults.raises .replaceFile with
        | some error => (.error error, fs.unlink temporary)
        | none =>
          (.ok ⟨storageKey, copying.sizeBytes, hexdigest sha256 copying.digested, copying.prefixBytes⟩,
            fs.replace temporary target)

/-- `_read_bounded`. -/
def readBounded (fs : FileSystem) (target : Path) (maxBytes : Int) :
    Except StorageException (List UInt8) :=
  match fs.files target with
  | none => .error .storage
  | some content => if content.length > maxBytes then .error .fileTooLarge else .ok content

/-- `read`. -/
def LocalFileStorage.read (storage : LocalFileStorage) (fs : FileSystem) (storageKey : Str)
    (maxBytes : Int) : Except StorageException (List UInt8) :=
  if maxBytes < 1 then .error .value
  else match resolveKey storageKey with
    | .error error => .error error
    | .ok target =>
      if !storage.parentInside target then .error .unsafeStorageKey
      else readBounded fs target maxBytes

section Frame
variable {faults : StoreFaults} {temporary : Path} {maxBytes : Int} {fs : FileSystem}

theorem FileSystem.append_ne {path p : Path} (content : List UInt8) (h : p ≠ path) :
    (fs.append path content).files p = fs.files p := if_neg h

theorem FileSystem.append_self {path : Path} {content : List UInt8} (more : List UInt8)
    (h : fs.files path = some content) : (fs.append path more).files path = some (content ++ more) := by
  rw [FileSystem.append]
  dsimp only
  rw [if_pos rfl, h]
  rfl

/-- Copying touches the temporary file only. -/
theorem copyChunks_frame {p : Path} (h : p ≠ temporary) (index : Nat) (copying : Copying)
    (fs : FileSystem) (source : List SourceRead) :
    (copyChunks faults temporary maxBytes index copying fs source).2.files p = fs.files p := by
  induction source generalizing index copying fs with
  | nil => rfl
  | cons read source ih =>
    cases read with
    | raised error => rfl
    | chunk chunk =>
      rw [copyChunks]
      dsimp only
      split
      · rfl
      split
      · rfl
      split
      · exact FileSystem.append_ne _ h
      · exact (ih _ _ _).trans (FileSystem.append_ne _ h)

theorem fillTemporary_frame {p : Path} (h : p ≠ temporary) (source : List SourceRead) :
    (fillTemporary faults temporary maxBytes fs source).2.files p = fs.files p := by
  have hcopy : (copyChunks faults temporary maxBytes 0 ⟨0, [], []⟩ fs source).2.files p = fs.files p :=
    copyChunks_frame h 0 _ fs source
  unfold fillTemporary
  split
  · rename_i heq
    rwa [heq] at hcopy
  · rename_i heq
    rw [heq] at hcopy
    split
    · exact hcopy
    split
    · exact hcopy
    split
    · exact hcopy
    · exact hcopy

theorem writeTemporary_frame {p : Path} (h : p ≠ temporary) (source : List SourceRead) :
    (writeTemporary faults temporary maxBytes fs source).2.files p = fs.files p := by
  have hcreate : (fs.create temporary).files p = fs.files p := if_neg h
  unfold writeTemporary
  split
  · rfl
  split
  · rfl
  · dsimp only
    split <;> exact (fillTemporary_frame h source).trans hcreate

/-- Taking the temporary file away brings the files back. -/
theorem unlink_writeTemporary (hfresh : fs.files temporary = none) (source : List SourceRead) :
    (writeTemporary faults temporary maxBytes fs source).2.unlink temporary = fs := by
  obtain ⟨files⟩ := fs
  refine congrArg FileSystem.mk (funext fun p => ?_)
  by_cases hp : p = temporary
  · rw [if_pos hp, hp]
    exact hfresh.symm
  · rw [if_neg hp]
    exact writeTemporary_frame hp source

end Frame

section Copy
variable {faults : StoreFaults} {temporary : Path} {maxBytes : Int} {fs fs' : FileSystem}
  {source : List SourceRead} {copied : Copying} {content : List UInt8}

/-- The variables of the loop once it has taken `content`, in whatever chunks. -/
def copyingOf (content : List UInt8) : Copying := ⟨content.length, content, content.take prefixSize⟩

theorem copyingOf_append (content chunk : List UInt8) :
    copyingOf (content ++ chunk) = ⟨content.length + chunk.length, content ++ chunk,
      if (content.take prefixSize).length < prefixSize then
        content.take prefixSize ++ chunk.take (prefixSize - (content.take prefixSize).length)
      else content.take prefixSize⟩ := by
  unfold copyingOf
  rw [List.length_append, List.take_append, List.length_take]
  congr 1
  by_cases h : content.length < prefixSize
  · rw [min_eq_right h.le, if_pos h]
  · rw [min_eq_left (not_lt.mp h), if_neg (lt_irrefl _), Nat.sub_eq_zero_of_le (not_lt.mp h),
      List.take_zero, List.append_nil]

/-- The source gives these chunks and is then at its end. -/
def Gives (source : List SourceRead) (chunks : List (List UInt8)) : Prop :=
  ∃ rest, source = chunks.map .chunk ++ rest ∧ (∀ chunk ∈ chunks, chunk ≠ []) ∧
    ∀ read ∈ rest.head?, read = .chunk []

theorem Gives.eq {chunks chunks' : List (List UInt8)} (h : Gives (chunks.map .chunk) chunks')
    (hchunks : ∀ chunk ∈ chunks, chunk ≠ []) : chunks' = chunks := by
  obtain ⟨rest, hsource, _, hrest⟩ := h
  have hinj : Function.Injective SourceRead.chunk := fun a b h => by cases h; rfl
  cases rest with
  | nil =>
    rw [List.append_nil] at hsource
    exact (List.map_injective_iff.mpr hinj hsource).symm
  | cons read rest =>
    obtain rfl := hrest read rfl
    have hmem : SourceRead.chunk [] ∈ chunks.map SourceRead.chunk := by
      rw [hsource]
      simp
    obtain ⟨chunk, hchunk, he⟩ := List.mem_map.mp hmem
    exact absurd (hinj he) (hchunks chunk hchunk)

/-- A copy that ends well has taken every chunk, raised nothing and stayed within the limit. -/
theorem copyChunks_ok {index : Nat}
    (h : copyChunks faults temporary maxBytes index (copyingOf content) fs source = (.ok copied, fs'))
    (hfile : fs.files temporary = some content) (hmax : content.length ≤ maxBytes) :
    ∃ chunks, Gives source chunks ∧ (∀ j < chunks.length, faults.raises (.write (index + j)) = none) ∧
      copied = copyingOf (content ++ chunks.flatten) ∧
      fs'.files temporary = some (content ++ chunks.flatten) ∧
      (content ++ chunks.flatten).length ≤ maxBytes := by
  -- The end of the source, where nothing more is taken.
  have hend {index : Nat} {source : List SourceRead} (hrest : ∀ read ∈ source.head?, read = .chunk [])
      {fs : FileSystem} {content : List UInt8} (hfile : fs.files temporary = some content)
      (hmax : content.length ≤ maxBytes)
      (h : ((.ok (copyingOf content), fs) : Except StorageException Copying × FileSystem) = (.ok copied, fs')) :
      ∃ chunks, Gives source chunks ∧ (∀ j < chunks.length, faults.raises (.write (index + j)) = none) ∧
        copied = copyingOf (content ++ chunks.flatten) ∧
        fs'.files temporary = some (content ++ chunks.flatten) ∧
        (content ++ chunks.flatten).length ≤ maxBytes := by
    obtain ⟨hcopied, rfl⟩ := Prod.mk.inj h
    refine ⟨[], ⟨source, rfl, by simp, hrest⟩, by simp, ?_⟩
    rw [List.flatten_nil, List.append_nil]
    exact ⟨(Except.ok.inj hcopied).symm, hfile, hmax⟩
  induction source generalizing index content fs with
  | nil => exact hend (by simp) hfile hmax h
  | cons read source ih =>
    cases read with
    | raised error => cases (Prod.mk.inj h).1
    | chunk chunk =>
      rw [copyChunks] at h
      dsimp only at h
      split at h
      · rename_i hchunk
        exact hend (by simp [hchunk]) hfile hmax h
      rename_i hchunk
      split at h
      · cases (Prod.mk.inj h).1
      rename_i hfits
      split at h
      · cases (Prod.mk.inj h).1
      rename_i hwrite
      have hnext : copyChunks faults temporary maxBytes (index + 1) (copyingOf (content ++ chunk))
          (fs.append temporary chunk) source = (.ok copied, fs') := by
        rw [copyingOf_append]
        exact h
      have hlength : (content ++ chunk).length ≤ maxBytes := by
        rw [List.length_append]
        exact not_lt.mp hfits
      obtain ⟨chunks, ⟨rest, rfl, hchunks, hrest⟩, hquiet, hcopied, hfile', hmax'⟩ :=
        ih hnext (FileSystem.append_self chunk hfile) hlength
      rw [List.append_assoc] at hcopied hfile' hmax'
      refine ⟨chunk :: chunks, ⟨rest, rfl, List.forall_mem_cons.mpr ⟨hchunk, hchunks⟩, hrest⟩, ?_,
        hcopied, hfile', hmax'⟩
      intro j hj
      cases j with
      | zero => exact hwrite
      | succ j =>
        rw [← Nat.add_assoc, Nat.add_right_comm]
        exact hquiet j (Nat.lt_of_succ_lt_succ hj)

/-- Without a fault, what is copied depends on the chunks through their concatenation only. -/
theorem copyChunks_noFaults {index : Nat} {chunks : List (List UInt8)} (hchunks : ∀ chunk ∈ chunks, chunk ≠ [])
    (hmax : content.length ≤ maxBytes) :
    (copyChunks noFaults temporary maxBytes index (copyingOf content) fs (chunks.map .chunk)).1 =
      if (content ++ chunks.flatten).length ≤ maxBytes then .ok (copyingOf (content ++ chunks.flatten))
      else .error .fileTooLarge := by
  induction chunks generalizing index content fs with
  | nil =>
    rw [List.flatten_nil, List.append_nil, if_pos hmax]
    rfl
  | cons chunk chunks ih =>
    obtain ⟨hchunk, hchunks⟩ := List.forall_mem_cons.mp hchunks
    rw [List.map_cons, copyChunks, if_neg hchunk, List.flatten_cons, ← List.append_assoc]
    dsimp only
    by_cases hfits : ((content ++ chunk).length : Int) ≤ maxBytes
    · rw [List.length_append] at hfits
      rw [copyingOf, if_neg (not_lt.mpr hfits)]
      have hnext := @ih (fs.append temporary chunk) (content ++ chunk) (index + 1) hchunks
        (by rwa [List.length_append])
      rw [copyingOf_append] at hnext
      exact hnext
    · have hover : ¬((content ++ chunk ++ chunks.flatten).length : Int) ≤ maxBytes := by
        simp only [List.length_append] at hfits ⊢
        omega
      rw [List.length_append] at hfits
      rw [if_neg hover, copyingOf, if_pos (not_le.mp hfits)]

end Copy

section Store
variable {storage : LocalFileStorage} {sha256 : Sha256} {hex : Str} {faults : StoreFaults} {fs : FileSystem}
  {source : List SourceRead} {storageKey : Str} {target : Path} {maxBytes : Int}

theorem resolveKey_ne_nil (h : resolveKey storageKey = .ok target) : target ≠ [] := by
  unfold resolveKey at h
  split at h
  · cases h
  · rename_i hkey
    obtain rfl := Except.ok.inj h
    exact fun hnil => hkey (.inr (.inl hnil))

/-- The temporary name is longer than the name it is made from. -/
theorem temporaryPath_ne (hex : Str) (h : target ≠ []) : target ≠ temporaryPath target hex := by
  intro he
  have hlast : target.getLast? = some (target.getLastD []) := by
    rw [List.getLastD_eq_getLast?, List.getLast?_eq_some_getLast h, Option.getD_some]
  have hname := congrArg List.getLast? he
  rw [hlast, temporaryPath, List.getLast?_concat] at hname
  have hlength := congrArg List.length (Option.some.inj hname)
  simp only [List.length_cons, List.length_append] at hlength
  omega

/-- A whole temporary file, closed without a fault. -/
theorem writeTemporary_ok {temporary : Path} {copied : Copying} {fs' : FileSystem} (hmax : 0 ≤ maxBytes)
    (h : writeTemporary faults temporary maxBytes fs source = (.ok copied, fs')) :
    ∃ chunks, Gives source chunks ∧ (∀ j < chunks.length, faults.raises (.write j) = none) ∧
      faults.raises .openFile = none ∧ faults.raises .flush = none ∧ faults.raises .fsync = none ∧
      faults.raises .close = none ∧ copied = copyingOf chunks.flatten ∧ chunks.flatten ≠ [] ∧
      fs'.files temporary = some chunks.flatten ∧ chunks.flatten.length ≤ maxBytes := by
  unfold writeTemporary at h
  split at h
  · cases (Prod.mk.inj h).1
  rename_i hopen
  split at h
  · cases (Prod.mk.inj h).1
  dsimp only at h
  split at h
  · cases (Prod.mk.inj h).1
  rename_i hclose
  unfold fillTemporary at h
  split at h
  · cases (Prod.mk.inj h).1
  rename_i copying fs₁ hcopy
  split at h
  · cases (Prod.mk.inj h).1
  rename_i hnonempty
  split at h
  · cases (Prod.mk.inj h).1
  rename_i hflush
  split at h
  · cases (Prod.mk.inj h).1
  rename_i hfsync
  obtain ⟨hcopied, rfl⟩ := Prod.mk.inj h
  obtain rfl := Except.ok.inj hcopied
  have hcreate : (fs.create temporary).files temporary = some [] := if_pos rfl
  obtain ⟨chunks, hgives, hquiet, rfl, hfile, hlength⟩ := @copyChunks_ok _ _ _ _ _ _ _ [] 0 hcopy hcreate hmax
  simp only [List.nil_append, Nat.zero_add] at hquiet hfile hlength hnonempty ⊢
  refine ⟨chunks, hgives, hquiet, hopen, hflush, hfsync, hclose, rfl, ?_, hfile, hlength⟩
  intro hnil
  rw [hnil] at hnonempty
  exact hnonempty rfl

/-- Without a fault, the outcome of writing is a function of the concatenation. -/
theorem writeTemporary_noFaults {temporary : Path} (hfresh : fs.files temporary = none) (hmax : 0 ≤ maxBytes)
    {chunks : List (List UInt8)} (hchunks : ∀ chunk ∈ chunks, chunk ≠ []) :
    (writeTemporary noFaults temporary maxBytes fs (chunks.map .chunk)).1 =
      if maxBytes < chunks.flatten.length then .error .fileTooLarge
      else if chunks.flatten = [] then .error .emptyFile
      else .ok (copyingOf chunks.flatten) := by
  have hcopy : (copyChunks noFaults temporary maxBytes 0 ⟨0, [], []⟩ (fs.create temporary)
      (chunks.map .chunk)).1 = if (chunks.flatten.length : Int) ≤ maxBytes then
        .ok (copyingOf chunks.flatten) else .error .fileTooLarge :=
    @copyChunks_noFaults temporary maxBytes _ [] 0 chunks hchunks hmax
  unfold writeTemporary fillTemporary
  rw [hfresh]
  split
  · rename_i h
    cases h
  rw [if_neg (by simp)]
  dsimp only
  split
  · rename_i h
    cases h
  split
  · rename_i error fs₁ heq
    rw [heq] at hcopy
    split at hcopy
    · cases hcopy
    · rename_i hover
      rw [if_pos (not_le.mp hover)]
      exact hcopy
  · rename_i copying fs₁ heq
    rw [heq] at hcopy
    split at hcopy
    · rename_i hfits
      obtain rfl := Except.ok.inj hcopy
      rw [if_neg (not_lt.mpr hfits)]
      by_cases hnil : chunks.flatten = []
      · have hzero : (copyingOf chunks.flatten).sizeBytes = 0 := congrArg List.length hnil
        rw [if_pos hzero, if_pos hnil]
      · have hpos : (copyingOf chunks.flatten).sizeBytes ≠ 0 := fun h => hnil (List.length_eq_zero_iff.mp h)
        rw [if_neg hpos, if_neg hnil]
        rfl
    · cases hcopy

/-- Reading back a file. -/
theorem read_eq {content : List UInt8} (hkey : resolveKey storageKey = .ok target)
    (hinside : storage.parentInside target = true) (hfile : fs.files target = some content)
    (hmax : 1 ≤ maxBytes) : storage.read fs storageKey maxBytes =
      if content.length > maxBytes then .error .fileTooLarge else .ok content := by
  rw [LocalFileStorage.read, if_neg (by omega), hkey]
  dsimp only
  rw [hinside, readBounded, hfile]
  rfl

/-- The outcome of a call without a fault is that of writing the temporary file. -/
theorem store_outcome (hkey : resolveKey storageKey = .ok target)
    (hinside : storage.parentInside target = true) {content : List UInt8} {P Q : Prop} [Decidable P]
    [Decidable Q] {e e' : StorageException}
    (hwritten : (writeTemporary noFaults (temporaryPath target hex) maxBytes fs source).1 =
      if P then .error e else if Q then .error e' else .ok (copyingOf content)) :
    (storage.store sha256 hex noFaults fs source storageKey maxBytes).1 =
      if P then .error e else if Q then .error e'
      else .ok ⟨storageKey, content.length, hexdigest sha256 content, content.take 4096⟩ := by
  unfold LocalFileStorage.store
  rw [hkey]
  dsimp only
  rw [hinside, if_neg (by simp)]
  split
  · rename_i heq
    rw [heq] at hwritten
    split at hwritten
    · rename_i hP
      rw [if_pos hP]
      exact congrArg _ (Except.error.inj hwritten)
    · rename_i hP
      split at hwritten
      · rename_i hQ
        rw [if_neg hP, if_pos hQ]
        exact congrArg _ (Except.error.inj hwritten)
      · cases hwritten
  · rename_i heq
    rw [heq] at hwritten
    split at hwritten
    · cases hwritten
    · split at hwritten
      · cases hwritten
      · rename_i hP hQ
        obtain rfl := Except.ok.inj hwritten
        rw [if_neg hP, if_neg hQ]
        rfl

/-- A call that raises leaves the files as they were. -/
theorem store_error (hkey : resolveKey storageKey = .ok target)
    (hfresh : fs.files (temporaryPath target hex) = none) {e : StorageException}
    (h : (storage.store sha256 hex faults fs source storageKey maxBytes).1 = .error e) :
    (storage.store sha256 hex faults fs source storageKey maxBytes).2 = fs := by
  have hback : (writeTemporary faults (temporaryPath target hex) maxBytes fs source).2.unlink
      (temporaryPath target hex) = fs := unlink_writeTemporary hfresh source
  unfold LocalFileStorage.store at h ⊢
  rw [hkey] at h ⊢
  dsimp only at h ⊢
  split at h
  · rename_i hinside
    rw [if_pos hinside]
  rename_i hinside
  rw [if_neg hinside]
  split at h
  · rename_i heq
    rw [heq] at hback
    exact hback
  · rename_i heq
    rw [heq] at hback
    split at h
    · exact hback
    · cases h

/-- The target holds the content, the temporary file is gone, the other files are as before. -/
structure Published (fs fs' : FileSystem) (target temporary : Path) (content : List UInt8) : Prop where
  content_at : fs'.files target = some content
  temporary_gone : fs'.files temporary = none
  others : ∀ p, p ≠ target → p ≠ temporary → fs'.files p = fs.files p

/-- A call that returns has taken all of the source, nothing raised, and it has published the source. -/
theorem store_ok (hkey : resolveKey storageKey = .ok target)
    (hmax : 0 ≤ maxBytes) {stored : StoredFile}
    (h : (storage.store sha256 hex faults fs source storageKey maxBytes).1 = .ok stored) :
    ∃ chunks, Gives source chunks ∧
      ((∀ j < chunks.length, faults.raises (.write j) = none) ∧ faults.raises .openFile = none ∧
        faults.raises .flush = none ∧ faults.raises .fsync = none ∧ faults.raises .close = none ∧
        faults.raises .replaceFile = none) ∧
      stored = ⟨storageKey, chunks.flatten.length, hexdigest sha256 chunks.flatten,
        chunks.flatten.take prefixSize⟩ ∧ chunks.flatten ≠ [] ∧ chunks.flatten.length ≤ maxBytes ∧
      Published fs (storage.store sha256 hex faults fs source storageKey maxBytes).2 target
        (temporaryPath target hex) chunks.flatten := by
  have htemporary := temporaryPath_ne hex (resolveKey_ne_nil hkey)
  unfold LocalFileStorage.store at h ⊢
  rw [hkey] at h ⊢
  dsimp only at h ⊢
  split at h
  · cases h
  rename_i hinside
  rw [if_neg hinside]
  split at h
  · cases h
  rename_i copying fs' heq
  split at h
  · cases h
  rename_i hreplace
  obtain rfl := Except.ok.inj h
  obtain ⟨chunks, hgives, hwrite, hopen, hflush, hfsync, hclose, rfl, hne, hfile, hlength⟩ :=
    writeTemporary_ok hmax heq
  refine ⟨chunks, hgives, ⟨hwrite, hopen, hflush, hfsync, hclose, hreplace⟩, rfl, hne, hlength, ?_⟩
  constructor
  · exact (if_pos rfl).trans hfile
  · exact (if_neg htemporary.symm).trans (if_pos rfl)
  · intro p hp hp'
    have hframe : (writeTemporary faults (temporaryPath target hex) maxBytes fs source).2.files p =
        fs.files p := writeTemporary_frame hp' source
    rw [heq] at hframe
    exact (if_neg hp).trans ((if_neg hp').trans hframe)

/-- Storing a stream depends on its bytes, not on how they are split, and is all or nothing,
whichever steps raise. -/
theorem store_all_or_nothing (storage : LocalFileStorage) (sha256 : Sha256) (hex : Str) (fs : FileSystem)
    {storageKey : Str} {target : Path} (maxBytes : Int) (hkey : resolveKey storageKey = .ok target)
    (hinside : storage.parentInside target = true) (hmax : 1 ≤ maxBytes)
    (hfresh : fs.files (temporaryPath target hex) = none) :
    (∀ chunks : List (List UInt8), (∀ chunk ∈ chunks, chunk ≠ []) →
      let content := chunks.flatten
      let run := storage.store sha256 hex noFaults fs (chunks.map .chunk) storageKey maxBytes
      (run.1 = .error .fileTooLarge ↔ maxBytes < content.length) ∧
      (run.1 = .error .emptyFile ↔ content = []) ∧
      (content ≠ [] → content.length ≤ maxBytes →
        run.1 = .ok ⟨storageKey, content.length, hexdigest sha256 content, content.take 4096⟩ ∧
        (∀ m : Int, max 1 (content.length : Int) ≤ m → storage.read run.2 storageKey m = .ok content) ∧
        ∀ m : Int, 1 ≤ m → m < content.length → storage.read run.2 storageKey m = .error .fileTooLarge)) ∧
    ∀ (faults : StoreFaults) (source : List SourceRead),
      let run := storage.store sha256 hex faults fs source storageKey maxBytes
      (∀ e, run.1 = .error e → run.2 = fs) ∧
      ∀ stored, run.1 = .ok stored → ∃ chunks, Gives source chunks ∧
        ((∀ j < chunks.length, faults.raises (.write j) = none) ∧ faults.raises .openFile = none ∧
          faults.raises .flush = none ∧ faults.raises .fsync = none ∧ faults.raises .close = none ∧
          faults.raises .replaceFile = none) ∧
        Published fs run.2 target (temporaryPath target hex) chunks.flatten := by
  have hzero : (0 : Int) ≤ maxBytes := by omega
  refine ⟨fun chunks hchunks => ?_, fun faults source => ⟨fun e => store_error hkey hfresh, ?_⟩⟩
  · intro content run
    have hwritten : (writeTemporary noFaults (temporaryPath target hex) maxBytes fs (chunks.map .chunk)).1 =
        if maxBytes < content.length then .error .fileTooLarge
        else if content = [] then .error .emptyFile else .ok (copyingOf content) :=
      writeTemporary_noFaults hfresh hzero hchunks
    have hrun : run.1 = if maxBytes < content.length then .error .fileTooLarge
        else if content = [] then .error .emptyFile
        else .ok ⟨storageKey, content.length, hexdigest sha256 content, content.take 4096⟩ := by
      rw [← store_outcome hkey hinside hwritten]
    refine ⟨?_, ?_, fun hne hfits => ?_⟩
    · rw [hrun]
      split
      · exact iff_of_true rfl (by assumption)
      · rename_i hfits
        refine iff_of_false ?_ hfits
        split <;> exact fun h => by cases h
    · rw [hrun]
      split
      · rename_i hover
        refine iff_of_false (fun h => by cases h) fun hnil => ?_
        rw [hnil] at hover
        exact absurd hover (by simp only [List.length_nil]; omega)
      · split
        · exact iff_of_true rfl (by assumption)
        · exact iff_of_false (fun h => by cases h) (by assumption)
    · rw [if_neg (not_lt.mpr hfits), if_neg hne] at hrun
      obtain ⟨chunks', hgives, _, _, _, _, hpublished⟩ := store_ok hkey hzero hrun
      obtain rfl := hgives.eq hchunks
      have hfile : run.2.files target = some content := hpublished.content_at
      refine ⟨hrun, fun m hm => ?_, fun m hm hlt => ?_⟩
      · rw [read_eq hkey hinside hfile (by omega), if_neg (by omega)]
      · rw [read_eq hkey hinside hfile hm, if_pos hlt]
  · intro stored h
    obtain ⟨chunks, hgives, hquiet, _, _, _, hfiles⟩ := store_ok hkey hzero h
    exact ⟨chunks, hgives, hquiet, hfiles⟩

/-- `b"ab"` in two reads. -/
theorem store_all_or_nothing_example :
    (LocalFileStorage.store ⟨fun _ => true⟩ (fun _ => List.Vector.replicate 32 0) (str "0f") noFaults
      ⟨fun _ => none⟩ ([[0x61], [0x62]].map .chunk) (str "kb/a.txt") 2).1.toOption.map StoredFile.sizeBytes =
        some 2 := by
  have hkey : resolveKey (str "kb/a.txt") = .ok [str "kb", str "a.txt"] := by decide
  have h := store_all_or_nothing ⟨fun _ => true⟩ (fun _ => List.Vector.replicate 32 0) (str "0f")
    ⟨fun _ => none⟩ 2 hkey rfl (by decide) rfl
  have hstored := ((h.1 [[0x61], [0x62]] (by decide)).2.2 (by decide) (by decide)).1
  exact congrArg (fun outcome => outcome.toOption.map StoredFile.sizeBytes) hstored

end Store

end AgenticRag.Ingestion
