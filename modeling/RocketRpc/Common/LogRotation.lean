import RocketRpc.Lib.Directory
import RocketRpc.Lib.Machine

/-
  The log file and its rotation (`rocket/common/log.cc`).

  The write thread calls `rotateIfNeeded` and writes a batch, again and again; the file can be
  opened and writes complete in full. A rotated file is named by the second of the rotation,
  and `rename` replaces a file that has the name already. `rotation_keeps_bytes` says when the
  files hold all that was ever written: the type of bytes is a parameter, so that a byte may
  carry its place in the log.
-/

namespace RocketRpc.Common

open Machine

/-- A file of the log: `m_file_path`, or `m_file_path`, a dot and a number of seconds. -/
inductive LogName where
  | current
  | rotated (ts : Int)
  deriving DecidableEq, Repr

structure LogFiles (β : Type) where
  disk : Directory LogName β
  maxFileSize : Nat
  currentFileSize : Nat := 0
  /-- The write thread is behind `rotateIfNeeded`, with its batch still to write. -/
  due : Bool := false

inductive LogFilesLabel (β : Type) where
  /-- The clock reads `now` nanoseconds; `renamed` says whether `rename` succeeds. -/
  | rotateIfNeeded (now : Int) (renamed : Bool)
  | write (data : List β)
  deriving DecidableEq, Repr

namespace LogFiles

variable {β : Type}

def openLogFile (w : LogFiles β) : LogFiles β :=
  let disk := Directory.create w.disk .current
  { w with disk, currentFileSize := (Directory.contents disk .current).length }

/-- The name that a rotation at `now` gives to the file. -/
def rotatedName (now : Int) : LogName := .rotated (now.tdiv 1000000000)

def rotateIfNeeded (w : LogFiles β) (now : Int) (renamed : Bool) : LogFiles β :=
  if w.maxFileSize = 0 ∨ w.currentFileSize < w.maxFileSize then w
  else if renamed then
    openLogFile { w with disk := Directory.rename w.disk .current (rotatedName now) }
  else openLogFile w

def write (w : LogFiles β) (data : List β) : LogFiles β :=
  { w with
    disk := Directory.append w.disk .current data
    currentFileSize := w.currentFileSize + data.length }

/-- The files when the write thread starts. -/
def start (disk : Directory LogName β) (maxFileSize : Nat) : LogFiles β :=
  openLogFile { disk, maxFileSize }

/-- One call of the write thread; the events are the bytes that are written. -/
def step (w : LogFiles β) : LogFilesLabel β → Option (LogFiles β × List β)
  | .rotateIfNeeded now renamed =>
    if w.due then none else some ({ w.rotateIfNeeded now renamed with due := true }, [])
  | .write data =>
    if w.due && !data.isEmpty then some ({ w.write data with due := false }, data) else none

/-- A rotation finds no bytes under the name it gives. -/
def Fresh (w : LogFiles β) : LogFilesLabel β → Prop
  | .rotateIfNeeded now renamed =>
    w.maxFileSize ≠ 0 → w.maxFileSize ≤ w.currentFileSize → renamed = true →
      Directory.contents w.disk (rotatedName now) = []
  | .write _ => True

instance (w : LogFiles β) : DecidablePred w.Fresh
  | .rotateIfNeeded _ _ => inferInstanceAs (Decidable (_ → _ → _ → _ = []))
  | .write _ => .isTrue trivial

/-! ## What each call loses -/

/-- The file that is written to exists. -/
def Opened (w : LogFiles β) : Prop := LogName.current ∈ w.disk

theorem opened_openLogFile (w : LogFiles β) : w.openLogFile.Opened := by
  unfold Opened openLogFile Directory.create
  split
  · assumption
  · exact (AList.mem_insert _).mpr (Or.inl rfl)

theorem bytes_openLogFile (w : LogFiles β) :
    (Directory.bytes w.openLogFile.disk).Perm (Directory.bytes w.disk) :=
  Directory.bytes_create w.disk .current

/-- What `rotateIfNeeded` loses is what the file held that has the new name. -/
theorem bytes_rotateIfNeeded {w : LogFiles β} (hw : w.Opened) (now : Int) (renamed : Bool) :
    (w.rotateIfNeeded now renamed).Opened ∧
      ∃ lost, (Directory.bytes (w.rotateIfNeeded now renamed).disk ++ lost).Perm
          (Directory.bytes w.disk) ∧
        (lost = [] ↔ w.Fresh (.rotateIfNeeded now renamed)) := by
  rw [rotateIfNeeded]
  split
  · rename_i hsmall
    refine ⟨hw, [], by rw [List.append_nil], fun _ hmax hle => ?_, fun _ => rfl⟩
    omega
  rename_i hlarge
  cases renamed with
  | false =>
    refine ⟨opened_openLogFile _, [], ?_, fun _ _ _ hfalse => absurd hfalse (by simp),
      fun _ => rfl⟩
    rw [List.append_nil]
    exact bytes_openLogFile w
  | true =>
    have hren := Directory.bytes_rename hw
      (show LogName.current ≠ rotatedName now by simp [rotatedName])
    refine ⟨opened_openLogFile _, Directory.contents w.disk (rotatedName now), ?_,
      fun hnil _ _ _ => hnil, fun hfresh => hfresh (by omega) (by omega) rfl⟩
    refine ((bytes_openLogFile _).append_right _).trans ?_
    exact (List.perm_append_comm.trans hren.symm)

theorem step_lost {w w' : LogFiles β} {l : LogFilesLabel β} {es : List β} (hw : w.Opened)
    (hs : w.step l = some (w', es)) :
    w'.Opened ∧ ∃ lost, (Directory.bytes w'.disk ++ lost).Perm (Directory.bytes w.disk ++ es) ∧
      (lost = [] ↔ w.Fresh l) := by
  cases l with
  | rotateIfNeeded now renamed =>
    rw [step] at hs
    split at hs
    · exact absurd hs (by simp)
    obtain ⟨rfl, rfl⟩ := Prod.mk.inj (Option.some.inj hs)
    rw [List.append_nil]
    exact bytes_rotateIfNeeded hw now renamed
  | write data =>
    rw [step] at hs
    split at hs
    case isFalse => exact absurd hs (by simp)
    obtain ⟨rfl, rfl⟩ := Prod.mk.inj (Option.some.inj hs)
    refine ⟨(AList.mem_insert _).mpr (Or.inl rfl), [], ?_, fun _ => trivial, fun _ => rfl⟩
    rw [List.append_nil]
    exact Directory.bytes_append w.disk .current data

/-- What a run loses, and when it loses nothing. -/
theorem run_lost {disk : Directory LogName β} {maxFileSize : Nat} {ls : List (LogFilesLabel β)}
    {w : LogFiles β} {es : List β} (hrun : run step (start disk maxFileSize) ls = some (w, es)) :
    w.Opened ∧ ∃ lost, (Directory.bytes w.disk ++ lost).Perm (Directory.bytes disk ++ es) ∧
      (lost = [] ↔ RunOk step Fresh (start disk maxFileSize) ls) := by
  refine runOk_history (fun ls w es => w.Opened ∧
      ∃ lost, (Directory.bytes w.disk ++ lost).Perm (Directory.bytes disk ++ es) ∧
        (lost = [] ↔ RunOk step Fresh (start disk maxFileSize) ls))
    (fun ls u tr l u' fs hu ih _ hs => ?_) ⟨opened_openLogFile _, [], ?_, ?_⟩ (runOk_true _ ls) hrun
  · obtain ⟨hopen, lost, hperm, hlost⟩ := ih
    obtain ⟨hopen', lost', hperm', hlost'⟩ := step_lost hopen hs
    refine ⟨hopen', lost' ++ lost, ?_, ?_⟩
    · calc
        _ = Directory.bytes u'.disk ++ lost' ++ lost := (List.append_assoc _ _ _).symm
        List.Perm _ (Directory.bytes u.disk ++ fs ++ lost) := hperm'.append_right lost
        List.Perm _ (Directory.bytes u.disk ++ lost ++ fs) := by
          rw [List.append_assoc, List.append_assoc]
          exact List.perm_append_comm.append_left _
        List.Perm _ (Directory.bytes disk ++ tr ++ fs) := hperm.append_right fs
        _ = Directory.bytes disk ++ (tr ++ fs) := List.append_assoc _ _ _
    · rw [List.append_eq_nil_iff, hlost, hlost', runOk_append, and_comm]
      refine and_congr_right fun _ => ⟨fun hl v vs hv => ?_, fun h => (h u tr hu).1⟩
      obtain ⟨rfl, -⟩ := Prod.mk.inj (Option.some.inj (hu.symm.trans hv))
      exact ⟨hl, fun _ _ _ => trivial⟩
  · rw [List.append_nil, List.append_nil]
    exact bytes_openLogFile _
  · exact iff_of_true rfl trivial

/-! ## Main result -/

/-- The files hold what they held at the start and all that was written since, each byte in
    one file, if and only if no rotation has found bytes under the name it gave. -/
theorem rotation_keeps_bytes (disk : Directory LogName β) (maxFileSize : Nat)
    (ls : List (LogFilesLabel β)) (w : LogFiles β) (es : List β)
    (hrun : run step (start disk maxFileSize) ls = some (w, es)) :
    ((Directory.bytes w.disk).Perm (Directory.bytes disk ++ es) ↔
        RunOk step Fresh (start disk maxFileSize) ls) ∧
      ((Directory.bytes disk ++ es).Nodup →
        ((∀ b ∈ Directory.bytes disk ++ es, ∃! k, b ∈ Directory.contents w.disk k) ↔
          RunOk step Fresh (start disk maxFileSize) ls)) := by
  obtain ⟨-, lost, hperm, hlost⟩ := run_lost hrun
  have hnone : (Directory.bytes w.disk).Perm (Directory.bytes disk ++ es) ↔ lost = [] := by
    refine ⟨fun h => ?_, fun h => ?_⟩
    · have hlen : (Directory.bytes w.disk ++ lost).length = (Directory.bytes w.disk).length :=
        (hperm.trans h.symm).length_eq
      rw [List.length_append] at hlen
      exact List.length_eq_zero_iff.mp (by omega)
    · rwa [h, List.append_nil] at hperm
  refine ⟨hnone.trans hlost, fun hnodup => ⟨fun hall => ?_, fun hok b hb => ?_⟩⟩
  · have hdisj := List.disjoint_of_nodup_append (hperm.nodup_iff.mpr hnodup)
    refine hlost.mp (List.eq_nil_iff_forall_not_mem.mpr fun b hb => ?_)
    obtain ⟨k, hk, -⟩ := hall b (hperm.subset (List.mem_append_right _ hb))
    exact hdisj (Directory.mem_bytes hk) hb
  · have hfull := hnone.mpr (hlost.mpr hok)
    exact Directory.existsUnique_contents (hfull.nodup_iff.mpr hnodup) (hfull.symm.subset hb)

/-- Two rotations a second apart, with the bytes numbered. -/
theorem rotation_keeps_bytes_two_rotations :
    ∃ w es, run step (start ∅ 1 : LogFiles Nat) [.rotateIfNeeded 0 true, .write [0, 1],
        .rotateIfNeeded 1000000000 true, .write [2], .rotateIfNeeded 2000000000 true] =
          some (w, es) ∧
      (Directory.bytes w.disk).Perm es := by
  have hrun : (run step (start ∅ 1 : LogFiles Nat) [.rotateIfNeeded 0 true, .write [0, 1],
      .rotateIfNeeded 1000000000 true, .write [2], .rotateIfNeeded 2000000000 true]).map
        (fun _ => true) = some true := by decide +kernel
  obtain ⟨⟨w, es⟩, hw, -⟩ := Option.map_eq_some_iff.mp hrun
  exact ⟨w, es, hw, (rotation_keeps_bytes ∅ 1 _ w es hw).1.mpr (by decide +kernel)⟩

/-- Two rotations in one second: the second one replaces the first rotated file, and the
    bytes 0 and 1 are in no file any more. -/
theorem rotation_loses_bytes :
    ∃ w es, run step (start ∅ 1 : LogFiles Nat) [.rotateIfNeeded 0 true, .write [0, 1],
        .rotateIfNeeded 10 true, .write [2], .rotateIfNeeded 20 true] = some (w, es) ∧
      0 ∈ es ∧ ∀ k, 0 ∉ Directory.contents w.disk k := by
  have hrun : (run step (start ∅ 1 : LogFiles Nat) [.rotateIfNeeded 0 true, .write [0, 1],
      .rotateIfNeeded 10 true, .write [2], .rotateIfNeeded 20 true]).map
        (fun r => decide (0 ∈ r.2 ∧ 0 ∉ Directory.bytes r.1.disk)) = some true := by decide +kernel
  obtain ⟨⟨w, es⟩, hw, hlost⟩ := Option.map_eq_some_iff.mp hrun
  obtain ⟨hmem, hnone⟩ := of_decide_eq_true hlost
  exact ⟨w, es, hw, hmem, fun k hk => hnone (Directory.mem_bytes hk)⟩

end LogFiles

end RocketRpc.Common
