import Mathlib.Data.List.AList

/-
  Files by name.

  A directory has one file at most for each name, and a file is what was appended to it.
  `rename` replaces a file that has the new name. What a directory holds over all its files
  is `bytes`: appending adds to it, creating leaves it alone, and `rename` loses what the
  replaced file held and nothing else (`bytes_rename`).
-/

universe u v

abbrev Directory (κ : Type u) (β : Type v) := AList fun _ : κ => List β

namespace Directory

variable {κ : Type u} {β : Type v} [DecidableEq κ]

/-- What the file holds; a file that does not exist holds nothing. -/
def contents (d : Directory κ β) (k : κ) : List β := (d.lookup k).getD []

/-- What all files hold, one after another. -/
def bytes (d : Directory κ β) : List β := d.entries.flatMap Sigma.snd

def create (d : Directory κ β) (k : κ) : Directory κ β := if k ∈ d then d else d.insert k []

def append (d : Directory κ β) (k : κ) (data : List β) : Directory κ β :=
  d.insert k (contents d k ++ data)

def rename (d : Directory κ β) (src tgt : κ) : Directory κ β :=
  match d.lookup src with
  | none => d
  | some c => (d.erase src).insert tgt c

/-! ## One file and the others -/

theorem contents_of_notMem {d : Directory κ β} {k : κ} (h : k ∉ d) : contents d k = [] := by
  rw [contents, AList.lookup_eq_none.mpr h]
  rfl

theorem contents_erase_ne {d : Directory κ β} {j k : κ} (h : j ≠ k) :
    contents (d.erase k) j = contents d j := by
  rw [contents, contents, AList.lookup_erase_ne h]

theorem bytes_insert (d : Directory κ β) (k : κ) (c : List β) :
    bytes (d.insert k c) = c ++ bytes (d.erase k) := rfl

theorem bytes_erase (d : Directory κ β) (k : κ) :
    bytes (d.erase k) = (List.kerase k d.entries).flatMap Sigma.snd := rfl

/-- What all files hold is what one of them holds and what the others do. -/
theorem bytes_perm (d : Directory κ β) (k : κ) :
    (bytes d).Perm (contents d k ++ bytes (d.erase k)) := by
  by_cases hk : k ∈ d
  · obtain ⟨c, l₁, l₂, hnot, heq, herase⟩ := List.exists_of_kerase hk
    have hc : contents d k = c := by
      have hlookup : d.lookup k = some c :=
        AList.mem_lookup_iff.mpr (heq ▸ List.mem_append_right _ List.mem_cons_self)
      rw [contents, hlookup]
      rfl
    have hd : bytes d = l₁.flatMap Sigma.snd ++ (c ++ l₂.flatMap Sigma.snd) := by
      rw [bytes, heq, List.flatMap_append, List.flatMap_cons]
    have he : bytes (d.erase k) = l₁.flatMap Sigma.snd ++ l₂.flatMap Sigma.snd := by
      rw [bytes_erase, herase, List.flatMap_append]
    rw [hd, he, hc]
    exact List.perm_append_comm_assoc _ _ _
  · have he : bytes (d.erase k) = bytes d := by
      rw [bytes_erase, List.kerase_of_notMem_keys hk, bytes]
    rw [contents_of_notMem hk, he]
    exact List.Perm.refl _

theorem mem_bytes {d : Directory κ β} {k : κ} {b : β} (h : b ∈ contents d k) : b ∈ bytes d :=
  (bytes_perm d k).symm.subset (List.mem_append_left _ h)

/-- Where nothing is held twice, what is held is in one file only. -/
theorem existsUnique_contents {d : Directory κ β} (hd : (bytes d).Nodup) {b : β}
    (hb : b ∈ bytes d) : ∃! k, b ∈ contents d k := by
  obtain ⟨⟨k, c⟩, hmem, hbc⟩ := List.mem_flatMap.mp hb
  have hlookup : d.lookup k = some c := AList.mem_lookup_iff.mpr hmem
  have hcontents : contents d k = c := by
    rw [contents, hlookup]
    rfl
  refine ⟨k, show b ∈ contents d k by rwa [hcontents], fun j hj => ?_⟩
  by_contra hne
  have hnodup := (bytes_perm d j).nodup_iff.mp hd
  have hk : b ∈ contents (d.erase j) k := by
    rw [contents_erase_ne (Ne.symm hne), hcontents]
    exact hbc
  exact List.disjoint_of_nodup_append hnodup hj (mem_bytes hk)

/-! ## What each operation holds -/

theorem bytes_create (d : Directory κ β) (k : κ) : (bytes (create d k)).Perm (bytes d) := by
  rw [create]
  split
  · exact List.Perm.refl _
  · rename_i hk
    rw [bytes_insert]
    have hperm := bytes_perm d k
    rw [contents_of_notMem hk] at hperm
    exact hperm.symm

theorem bytes_append (d : Directory κ β) (k : κ) (data : List β) :
    (bytes (append d k data)).Perm (bytes d ++ data) := by
  rw [append, bytes_insert]
  calc (contents d k ++ data ++ bytes (d.erase k)).Perm
        (contents d k ++ (data ++ bytes (d.erase k))) := by rw [List.append_assoc]
    _ |>.Perm (contents d k ++ (bytes (d.erase k) ++ data)) :=
      List.perm_append_comm.append_left _
    _ |>.Perm (contents d k ++ bytes (d.erase k) ++ data) := by rw [List.append_assoc]
    _ |>.Perm (bytes d ++ data) := (bytes_perm d k).symm.append_right _

/-- What a rename loses is what the replaced file held. -/
theorem bytes_rename {d : Directory κ β} {src tgt : κ} (hsrc : src ∈ d) (hne : src ≠ tgt) :
    (bytes d).Perm (contents d tgt ++ bytes (rename d src tgt)) := by
  obtain ⟨c, hc⟩ := Option.isSome_iff_exists.mp (AList.lookup_isSome.mpr hsrc)
  have hren : rename d src tgt = (d.erase src).insert tgt c := by rw [rename, hc]
  have hsrc' : contents d src = c := by
    rw [contents, hc]
    rfl
  have htgt : contents (d.erase src) tgt = contents d tgt := contents_erase_ne (Ne.symm hne)
  have hd := (bytes_perm d src).trans ((bytes_perm (d.erase src) tgt).append_left _)
  rw [hsrc', htgt] at hd
  rw [hren, bytes_insert]
  exact hd.trans (List.perm_append_comm_assoc _ _ _)

end Directory
