import Sysprog.Userfs.PairedStates

/-!
# The calls on two memories

A call that reads no field that is not set ends alike in agreeing memories,
whatever `malloc` leaves in the structs it is asked for meanwhile.
-/

namespace Sysprog.Userfs.PairedCalls

open CheckedRuns PairedRuns Memory Blocks Calls ClientLedger PairedStates

set_option autoImplicit false

variable {garbage other : Garbage} {ledger : Ledger} {fresh : Option Nat} {fs twin : FsState}

/-! ## ufs_open -/

theorem link_older_alike {files twinFiles : Heap File}
    (alike : HeapsAlike (FilesAlike ledger) files twinFiles) (older : Option Nat) (file : Nat) :
    Alike (HeapsAlike (FilesAlike ledger)) (linkOlder files older file)
      (linkOlder twinFiles older file) := by
  cases older with
  | none => exact .value alike
  | some prev =>
      unfold linkOlder
      apply assign_alike_same alike
      intro address struct found structs
      exact ⟨structs.refs, structs.name, rfl, structs.prev, structs.chain⟩

/-- The chain of a new file is whatever `malloc` left, and nothing is on record
as its content. -/
theorem alloc_file_struct_alike (agree : Agree ledger fresh fs twin) (filename : String)
    (unwritten : ledger.content fs.files.next = none) :
    Alike (SameValue ledger fresh) (allocFileStruct garbage filename fs)
      (allocFileStruct other filename twin) := by
  cases agree with
  | structs filesAlike filedescsAlike =>
      unfold allocFileStruct
      simp only [filesAlike.next]
      apply alike_bind
      · apply link_older_alike
        apply heaps_alike_alloc_same filesAlike
        exact ⟨rfl, rfl, rfl, rfl, fun written => absurd unwritten written⟩
      · intro linked twinLinked alike
        exact .value ⟨rfl, .structs alike filedescsAlike⟩

theorem store_file_descriptor_alike (agree : Agree ledger fresh fs twin) (fdno : Int) (fd : Nat) :
    Alike (fun stored twinStored => Agree ledger fresh stored twinStored)
      (storeFileDescriptor fdno fd fs) (storeFileDescriptor fdno fd twin) := by
  cases agree with
  | structs filesAlike filedescsAlike =>
      unfold storeFileDescriptor
      dsimp only
      split_ifs with inside
      · exact .value (.structs filesAlike filedescsAlike)
      · exact .fault _

theorem count_reference_alike {files twinFiles : Heap File}
    (alike : HeapsAlike (FilesAlike ledger) files twinFiles) (file : Nat) :
    Alike (HeapsAlike (FilesAlike ledger))
      (assign files (some file) fun struct => { struct with refs := struct.refs + 1 })
      (assign twinFiles (some file) fun struct => { struct with refs := struct.refs + 1 }) := by
  apply assign_alike_same alike
  intro address struct found structs
  exact ⟨by rw [structs.refs], structs.name, structs.next, structs.prev, structs.chain⟩

/-- Filling in the fresh descriptor leaves none that is not filled in. -/
theorem fill_filedesc_alike {filedescs twinFiledescs : Heap Filedesc} {fd : Nat}
    (alike : HeapsAlike (FiledescsAlike (some fd)) filedescs twinFiledescs) (file : Nat)
    (offset : Int) (flags : BitVec 32) :
    Alike (HeapsAlike (FiledescsAlike none))
      (assign filedescs (some fd) fun desc => ⟨some file, offset, openMode flags desc.mode⟩)
      (assign twinFiledescs (some fd) fun desc => ⟨some file, offset, openMode flags desc.mode⟩) := by
  apply assign_alike alike
  · intro address desc found _ descs _
    exact ⟨rfl, rfl⟩
  · intro place away desc found descs _
    exact descs away

theorem install_filedesc_alike {fd : Nat} (agree : Agree ledger (some fd) fs twin) (file : Nat)
    (offset : Int) (flags : BitVec 32) :
    Alike (SameValue ledger none) (installFiledesc fd file offset flags fs)
      (installFiledesc fd file offset flags twin) := by
  cases agree with
  | @structs files filedescs filesAlike filedescsAlike =>
      apply alike_bind (count_reference_alike filesAlike file)
      intro counted twinCounted countedAlike
      have base : Agree ledger (some fd)
          { fs with files := counted, fileDescriptorCount := fs.fileDescriptorCount + 1 }
          { fs with
            files := twinCounted
            filedescs := filedescs
            fileDescriptorCount := fs.fileDescriptorCount + 1 } :=
        .structs countedAlike filedescsAlike
      apply alike_bind (store_file_descriptor_alike base fs.fileDescriptorCount fd)
      intro stored twinStored storedAgree
      cases storedAgree with
      | structs storedFiles storedFiledescs =>
          apply alike_bind (fill_filedesc_alike storedFiledescs file offset flags)
          intro filled twinFilled filledAlike
          exact .value ⟨rfl, .structs storedFiles filledAlike⟩

theorem agree_alloc_filedesc (agree : Agree ledger none fs twin) (desc twinDesc : Filedesc) :
    Agree ledger (some fs.filedescs.next)
      { fs with filedescs := fs.filedescs.alloc desc }
      { twin with filedescs := twin.filedescs.alloc twinDesc } := by
  cases agree with
  | structs filesAlike filedescsAlike =>
      refine .structs filesAlike (heaps_alike_alloc filedescsAlike ?_ ?_)
      · intro filled
        exact absurd rfl filled
      · intro place _ old found descs _
        exact descs (Option.some_ne_none place).symm

theorem agree_release_filedesc {fd : Nat} (agree : Agree ledger (some fd) fs twin) :
    Agree ledger none { fs with filedescs := fs.filedescs.release fd }
      { twin with filedescs := twin.filedescs.release fd } := by
  cases agree with
  | structs filesAlike filedescsAlike =>
      refine .structs filesAlike (heaps_alike_release filedescsAlike ?_)
      intro place away old found descs _
      exact descs fun same => away (Option.some.inj same).symm

theorem ufs_open_alike (agree : Agree ledger none fs twin) (filename : String) (flags : BitVec 32)
    (unwritten : ledger.content fs.files.next = none)
    (below : ∀ address, .filedesc address ∈ fs.fileDescriptors → address < fs.filedescs.next) :
    Alike (SameValue ledger none) (ufsOpen garbage filename flags fs)
      (ufsOpen other filename flags twin) := by
  have next : twin.filedescs.next = fs.filedescs.next := by
    cases agree with
    | structs filesAlike filedescsAlike => exact filedescsAlike.next
  have base := agree_alloc_filedesc agree (garbage.filedesc fs.filedescs.next)
    (other.filedesc fs.filedescs.next)
  have freed := agree_release_filedesc base
  have filled : ∀ address, .filedesc address ∈ fs.fileDescriptors →
      some fs.filedescs.next ≠ some address := by
    intro address member same
    have less := below address member
    cases same
    exact absurd less (Nat.lt_irrefl _)
  unfold ufsOpen
  simp only [next]
  rw [find_file_struct_same base]
  cases findFileStruct filename { fs with
      filedescs := fs.filedescs.alloc (garbage.filedesc fs.filedescs.next) } with
  | error halt => exact .fault halt
  | ok file =>
      rw [ok_bind, ok_bind]
      split_ifs with creating
      · cases file with
        | some file => exact .value (agree_fail .noPermission freed (-1))
        | none =>
            apply alike_bind (alloc_file_struct_alike base filename unwritten)
            intro created twinCreated both
            obtain ⟨same, agrees⟩ := both
            rw [same]
            exact install_filedesc_alike agrees created.1 0 _
      · cases file with
        | none => exact .value (agree_fail .noFile freed (-1))
        | some file =>
            dsimp only
            rw [find_filedesc_same base file filled]
            cases walked : findFiledesc file { fs with
                filedescs := fs.filedescs.alloc (garbage.filedesc fs.filedescs.next) } with
            | error halt => exact .fault halt
            | ok ffd =>
                cases ffd with
                | none => exact .fault _
                | some ffd =>
                    apply alike_bind (deref_filedesc_alike base ffd)
                    intro desc twinDesc both
                    have known := (both.2.2 (filled ffd (find_filedesc_in_member walked))).2
                    rw [known]
                    exact install_filedesc_alike base file desc.offset flags

/-! ## ufs_write, ufs_read and file_size -/

theorem write_data_alike {recorded : Ledger} {file : Nat} (agree : Agree ledger fresh fs twin)
    (elsewhere : ∀ place, place ≠ file → recorded.content place ≠ none →
      ledger.content place ≠ none) (data : List Byte) (size : Nat) :
    Alike (SameValue recorded fresh) (writeData (some file) data size fs)
      (writeData (some file) data size twin) := by
  unfold writeData
  apply alike_bind (allocate_block_alike agree data _)
  intro stored twinStored both
  obtain ⟨allocated, base⟩ := stored
  obtain ⟨twinAllocated, twinBase⟩ := twinStored
  obtain ⟨same, agrees⟩ := both
  cases same
  cases agrees with
  | @structs files filedescs filesAlike filedescsAlike =>
      have written : Alike (HeapsAlike (FilesAlike recorded))
          (assign base.files (some file) fun struct => { struct with
            blockList := some allocated.firstBlock
            lastBlock := some allocated.lastBlock })
          (assign files (some file) fun struct => { struct with
            blockList := some allocated.firstBlock
            lastBlock := some allocated.lastBlock }) := by
        apply assign_alike filesAlike
        · intro address struct found _ structs
          exact ⟨structs.refs, structs.name, structs.next, structs.prev, fun _ => ⟨rfl, rfl⟩⟩
        · intro place away struct found structs
          exact files_alike_mono structs (elsewhere place fun own => away (by rw [own]))
      apply alike_bind written
      intro assigned twinAssigned assignedAlike
      exact .value ⟨rfl, .structs assignedAlike filedescsAlike⟩

theorem file_descriptor_at_same (agree : Agree ledger fresh fs twin) (fdno : Int) :
    fileDescriptorAt twin fdno = fileDescriptorAt fs fdno := by
  cases agree
  rfl

/-- Whatever struct the entry of a descriptor leads to is open on this file. -/
def OpenOn (fs : FsState) (fdno : Int) (file : Nat) : Prop :=
  ∀ fd desc, fileDescriptorAt fs fdno = .ok (some fd) → fs.filedescs.read fd = some desc →
    desc.file = some file

def SameMode (fs twin : FsState) (fdno : Int) : Prop :=
  ∀ fd desc twinDesc, fileDescriptorAt fs fdno = .ok (some fd) →
    fs.filedescs.read fd = some desc → twin.filedescs.read fd = some twinDesc →
    twinDesc.mode = desc.mode

theorem agree_move_filedesc {fd : Nat} {desc twinDesc : Filedesc}
    (agree : Agree ledger fresh fs twin) (alike : FiledescsAlike fresh fd desc twinDesc) :
    Agree ledger fresh { fs with filedescs := fs.filedescs.write fd desc }
      { twin with filedescs := twin.filedescs.write fd twinDesc } := by
  cases agree with
  | structs filesAlike filedescsAlike =>
      exact .structs filesAlike (heaps_alike_write_same filedescsAlike alike)

/-- Which bytes are on record does not matter here. -/
theorem written_of_update {content : Nat → Option (List Byte)} {target file : Nat}
    {bytes others : List Byte} (written : Function.update content target (some bytes) file ≠ none) :
    Function.update content target (some others) file ≠ none := by
  by_cases here : file = target
  · rw [here, Function.update_self]
    exact Option.some_ne_none others
  · rw [Function.update_of_ne here] at written ⊢
    exact written

theorem ufs_write_alike {fdno : Int} (agree : Agree ledger none fs twin)
    (isOpen : OpenOn fs fdno (ledger.target fdno)) (sameMode : SameMode fs twin fdno)
    (buf : List Byte) (size : Nat) :
    Alike (fun first second => second.1 = first.1 ∧
      Agree (recordWrite ledger fdno buf first.1) none first.2 second.2)
      (ufsWrite fdno buf size fs) (ufsWrite fdno buf size twin) := by
  unfold ufsWrite
  rw [file_descriptor_at_same agree]
  cases looked : fileDescriptorAt fs fdno with
  | error halt => exact .fault halt
  | ok entry =>
      cases entry with
      | none => exact .value (agree_fail .noFile agree (-1))
      | some fd =>
          apply alike_bind (deref_filedesc_alike agree fd)
          intro desc twinDesc both
          obtain ⟨descriptor, twinDescriptor, descs⟩ := both
          have known := descs (Option.some_ne_none fd).symm
          rw [sameMode fd desc twinDesc looked descriptor twinDescriptor, known.1,
            isOpen fd desc looked descriptor]
          split_ifs with writable
          · have elsewhere : ∀ place, place ≠ ledger.target fdno →
                (recordWrite ledger fdno buf 0).content place ≠ none →
                  ledger.content place ≠ none := by
              intro place away written
              rw [recordWrite, if_neg (by decide)] at written
              dsimp only at written
              rw [Function.update_of_ne away] at written
              exact written
            apply alike_bind (write_data_alike agree elsewhere buf size)
            intro stored twinStored held
            obtain ⟨bytesWritten, base⟩ := stored
            obtain ⟨twinBytes, twinBase⟩ := twinStored
            obtain ⟨same, agrees⟩ := held
            cases same
            refine .value ⟨rfl, agree_mono (agree_move_filedesc agrees fun _ => ⟨rfl, rfl⟩) ?_⟩
            intro file
            have returned : ¬ ((bytesWritten : Int) = -1) := by omega
            rw [recordWrite, if_neg returned, recordWrite, if_neg (by decide)]
            exact written_of_update
          · exact .value (agree_fail .noPermission agree (-1))

theorem move_offset_alike {filedescs twinFiledescs : Heap Filedesc}
    (alike : HeapsAlike (FiledescsAlike fresh) filedescs twinFiledescs) (fd : Nat) (offset : Int) :
    Alike (HeapsAlike (FiledescsAlike fresh))
      (assign filedescs (some fd) fun desc => { desc with offset := offset })
      (assign twinFiledescs (some fd) fun desc => { desc with offset := offset }) := by
  apply assign_alike_same alike
  intro address desc found descs filled
  exact ⟨(descs filled).1, rfl⟩

theorem read_data_alike {fd file : Nat} (agree : Agree ledger none fs twin)
    (leads : ∀ desc, fs.filedescs.read fd = some desc → desc.file = some file)
    (written : ledger.content file ≠ none) (buf : List Byte) (blockCount remained : Nat) :
    Alike (fun first second => second.1 = first.1 ∧ second.2.1 = first.2.1 ∧
      Agree ledger none first.2.2 second.2.2)
      (readData fd buf blockCount remained fs) (readData fd buf blockCount remained twin) := by
  unfold readData
  apply alike_bind (deref_filedesc_alike agree fd)
  intro desc twinDesc both
  obtain ⟨descriptor, _, descs⟩ := both
  have known := descs (Option.some_ne_none fd).symm
  rw [known.1, known.2]
  apply alike_bind (deref_file_alike agree desc.file)
  intro struct twinStruct held
  obtain ⟨found, pointer, _, structs⟩ := held
  rw [leads desc descriptor] at pointer
  cases pointer
  rw [(structs.chain written).1, read_data_loop_same agree]
  apply alike_bind (alike_refl _)
  intro loop twinLoop sameLoop
  cases sameLoop
  rw [read_remained_same agree]
  apply alike_bind (alike_refl _)
  intro last twinLast sameLast
  cases sameLast
  split_ifs with counted
  · exact .value ⟨rfl, rfl, agree_move_filedesc agree fun _ => ⟨rfl, rfl⟩⟩
  · exact .fault _

theorem ufs_read_alike {fdno : Int} (agree : Agree ledger none fs twin)
    (isOpen : OpenOn fs fdno (ledger.target fdno)) (sameMode : SameMode fs twin fdno)
    (readable : ∀ fd desc, fileDescriptorAt fs fdno = .ok (some fd) →
      fs.filedescs.read fd = some desc →
      desc.mode &&& ufsReadOnly ≠ 0 ∨ desc.mode &&& ufsReadWrite ≠ 0 →
      ledger.content (ledger.target fdno) ≠ none) (buf : List Byte) (size : Nat) :
    Alike (fun first second => second.1 = first.1 ∧ second.2.1 = first.2.1 ∧
      Agree ledger none first.2.2 second.2.2)
      (ufsRead fdno buf size fs) (ufsRead fdno buf size twin) := by
  unfold ufsRead
  rw [file_descriptor_at_same agree]
  cases looked : fileDescriptorAt fs fdno with
  | error halt => exact .fault halt
  | ok entry =>
      cases entry with
      | none => exact .value ⟨rfl, rfl, (agree_fail .noFile agree (-1 : Int)).2⟩
      | some fd =>
          apply alike_bind (deref_filedesc_alike agree fd)
          intro desc twinDesc both
          obtain ⟨descriptor, twinDescriptor, descs⟩ := both
          rw [sameMode fd desc twinDesc looked descriptor twinDescriptor]
          split_ifs with allowed
          · have written := readable fd desc looked descriptor allowed
            have leads := fun desc => isOpen fd desc looked
            apply alike_bind (read_data_alike agree leads written buf _ _)
            intro copied twinCopied held
            obtain ⟨bytesRead, filled, base⟩ := copied
            obtain ⟨twinRead, twinFilled, twinBase⟩ := twinCopied
            obtain ⟨sameRead, sameFilled, agrees⟩ := held
            cases sameRead
            cases sameFilled
            cases agrees with
            | structs filesAlike filedescsAlike =>
                apply alike_bind (move_offset_alike filedescsAlike fd bytesRead)
                intro moved twinMoved movedAlike
                exact .value ⟨rfl, rfl, .structs filesAlike movedAlike⟩
          · exact .value ⟨rfl, rfl, (agree_fail .noPermission agree (-1 : Int)).2⟩

theorem file_size_alike {fdno : Int} (agree : Agree ledger none fs twin)
    (isOpen : OpenOn fs fdno (ledger.target fdno))
    (written : ledger.content (ledger.target fdno) ≠ none) :
    Alike (SameValue ledger none) (fileSize fdno fs) (fileSize fdno twin) := by
  unfold fileSize
  rw [file_descriptor_at_same agree]
  cases looked : fileDescriptorAt fs fdno with
  | error halt => exact .fault halt
  | ok entry =>
      cases entry with
      | none => exact .value (agree_fail .noFile agree _)
      | some fd =>
          apply alike_bind (deref_filedesc_alike agree fd)
          intro desc twinDesc both
          obtain ⟨descriptor, _, descs⟩ := both
          rw [(descs (Option.some_ne_none fd).symm).1]
          apply alike_bind (deref_file_alike agree desc.file)
          intro struct twinStruct held
          obtain ⟨found, pointer, _, structs⟩ := held
          rw [isOpen fd desc looked descriptor] at pointer
          cases pointer
          have sameCount : blockCount twin = blockCount fs := by
            cases agree
            rfl
          rw [(structs.chain written).1, sameCount, file_size_loop_same agree]
          apply alike_bind (alike_refl _)
          intro size twinSize same
          cases same
          exact .value ⟨rfl, agree⟩

/-! ## ufs_close and ufs_delete -/

theorem agree_write_file {file : Nat} {struct twinStruct : File} (agree : Agree ledger fresh fs twin)
    (alike : FilesAlike ledger file struct twinStruct) :
    Agree ledger fresh { fs with files := fs.files.write file struct }
      { twin with files := twin.files.write file twinStruct } := by
  cases agree with
  | structs filesAlike filedescsAlike =>
      exact .structs (heaps_alike_write_same filesAlike alike) filedescsAlike

theorem deallocate_file_alike {file : Nat} (agree : Agree ledger fresh fs twin)
    (written : ledger.content file ≠ none) :
    Alike (fun freed twinFreed => Agree ledger fresh freed twinFreed)
      (deallocateFile file fs) (deallocateFile file twin) := by
  have release : ∀ freed twinFreed, Agree ledger fresh freed twinFreed →
      Agree ledger fresh { freed with files := freed.files.release file }
        { twinFreed with files := twinFreed.files.release file } := by
    intro freed twinFreed agrees
    cases agrees with
    | structs filesAlike filedescsAlike =>
        exact .structs (heaps_alike_release_same filesAlike file) filedescsAlike
  unfold deallocateFile
  apply alike_bind (deref_file_alike agree (some file))
  intro struct twinStruct held
  obtain ⟨found, same, _, structs⟩ := held
  cases same
  rw [(structs.chain written).1]
  cases struct.blockList with
  | none => exact .value (release fs twin agree)
  | some first =>
      apply alike_bind (deallocate_block_alike agree first)
      intro freed twinFreed agrees
      exact .value (release freed twinFreed agrees)

theorem agree_close (agree : Agree ledger fresh fs twin) (fd : Nat) :
    Agree ledger fresh
      { fs with
        filedescs := fs.filedescs.release fd
        fileDescriptorCount := fs.fileDescriptorCount - 1 }
      { twin with
        filedescs := twin.filedescs.release fd
        fileDescriptorCount := twin.fileDescriptorCount - 1 } := by
  cases agree with
  | structs filesAlike filedescsAlike =>
      exact .structs filesAlike (heaps_alike_release_same filedescsAlike fd)

theorem ufs_close_alike {fdno : Int} (agree : Agree ledger none fs twin)
    (isOpen : OpenOn fs fdno (ledger.target fdno))
    (last : ∀ struct, fs.files.read (ledger.target fdno) = some struct → struct.refs = 1 →
      ledger.content (ledger.target fdno) ≠ none) :
    Alike (SameValue ledger none) (ufsClose fdno fs) (ufsClose fdno twin) := by
  unfold ufsClose
  rw [file_descriptor_at_same agree]
  cases looked : fileDescriptorAt fs fdno with
  | error halt => exact .fault halt
  | ok entry =>
      cases entry with
      | none => exact .value (agree_fail .noFile agree (-1))
      | some fd =>
          apply alike_bind (deref_filedesc_alike agree fd)
          intro desc twinDesc both
          obtain ⟨descriptor, _, descs⟩ := both
          rw [(descs (Option.some_ne_none fd).symm).1, isOpen fd desc looked descriptor]
          apply alike_bind (deref_file_alike agree (some (ledger.target fdno)))
          intro struct twinStruct held
          obtain ⟨found, same, present, structs⟩ := held
          cases same
          have lowered : FilesAlike ledger (ledger.target fdno)
              { struct with refs := struct.refs - 1 }
              { twinStruct with refs := struct.refs - 1 } :=
            ⟨rfl, structs.name, structs.next, structs.prev, structs.chain⟩
          have base := agree_write_file agree lowered
          rw [structs.refs]
          dsimp only
          split_ifs with zero
          · have written := last struct present (by omega)
            apply alike_bind (deallocate_file_alike base written)
            intro freed twinFreed agrees
            exact .value ⟨rfl, agree_close agrees fd⟩
          · exact .value ⟨rfl, agree_close base fd⟩

theorem ufs_delete_alike (agree : Agree ledger none fs twin) (filename : String) :
    Alike (SameValue ledger none) (ufsDelete filename fs) (ufsDelete filename twin) := by
  unfold ufsDelete
  rw [find_file_struct_same agree]
  apply alike_bind (alike_refl (findFileStruct filename fs))
  intro found twinFound same
  cases same
  cases found with
  | none => exact .value ⟨rfl, agree⟩
  | some file =>
      cases agree with
      | @structs files filedescs filesAlike filedescsAlike =>
          have unnamed : Alike (HeapsAlike (FilesAlike ledger))
              (assign fs.files (some file) fun struct => { struct with name := none })
              (assign files (some file) fun struct => { struct with name := none }) := by
            apply assign_alike_same filesAlike
            intro address struct found structs
            exact ⟨structs.refs, rfl, structs.next, structs.prev, structs.chain⟩
          apply alike_bind unnamed
          intro assigned twinAssigned assignedAlike
          exact .value ⟨rfl, .structs assignedAlike filedescsAlike⟩

end Sysprog.Userfs.PairedCalls
