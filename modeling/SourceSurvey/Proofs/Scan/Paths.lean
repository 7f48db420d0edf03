import Mathlib.Data.List.Basic
import Mathlib.Data.List.Induction
import SourceSurvey.Proofs.Files.WellFormed
import SourceSurvey.Scan

/-!
Paths below a root. They begin with the root and go on with the names, a slash before each, so that
they grow with every name and tell the names from all others.
-/

namespace SourceSurvey.Scan

open Files
open Files.Path (slash)

/-- A root with the slash that comes before the names below it. -/
def rooted (root : List UInt8) : List UInt8 :=
  if root.getLast? == some slash then root else root ++ [slash]

theorem join_of_isName {root : List UInt8} (hroot : root ≠ []) {name : Name} (hname : IsName name) :
    Path.join root name = rooted root ++ name := by
  have habsolute : Path.isAbsolute name = false := by
    cases name with
    | nil => rfl
    | cons byte rest =>
      have hbyte : byte ≠ slash := fun h => hname.noSlash (h ▸ List.mem_cons_self)
      simp [Path.isAbsolute, hbyte]
  have hempty : root.isEmpty = false := by
    cases root with
    | nil => exact absurd rfl hroot
    | cons byte rest => rfl
  unfold Path.join rooted
  rw [habsolute, hempty]
  split
  · rename_i h
    simp at h
  · split
    · rfl
    · rw [List.append_assoc, List.singleton_append]

/-- No name ends in a slash, so one comes behind it before the next name. -/
theorem rooted_append_of_isName (root : List UInt8) {name : Name} (hname : IsName name) :
    rooted (root ++ name) = root ++ name ++ [slash] := by
  have hlast : (root ++ name).getLast? ≠ some slash := by
    rw [List.getLast?_append_of_ne_nil _ hname.ne_nil]
    exact fun h => hname.noSlash (List.mem_of_getLast? h)
  rw [rooted, if_neg (by simpa using hlast)]

/-- The path to some names is the root and the names behind it, with a slash before each. -/
theorem pathBelow_eq_append {root : List UInt8} (hroot : root ≠ []) {names : List Name}
    (hne : names ≠ []) (hnames : ∀ name ∈ names, IsName name) :
    pathBelow root names = rooted root ++ Text.join [slash] names := by
  induction names generalizing root with
  | nil => exact absurd rfl hne
  | cons name rest ih =>
    obtain ⟨hname, hrest⟩ := List.forall_mem_cons.mp hnames
    have hstep : pathBelow root (name :: rest) = pathBelow (rooted root ++ name) rest := by
      rw [pathBelow, List.foldl_cons, join_of_isName hroot hname]
      rfl
    cases rest with
    | nil =>
      rw [hstep]
      simp [pathBelow, Text.join]
    | cons next rest =>
      have hnext : rooted root ++ name ≠ [] := List.append_ne_nil_of_right_ne_nil _ hname.ne_nil
      rw [hstep, ih hnext (List.cons_ne_nil next rest) hrest, rooted_append_of_isName _ hname]
      simp [Text.join, List.intercalate_cons_cons]

/-- The deeper something is, the longer is the path to it. -/
theorem length_pathBelow_le {root : List UInt8} (hroot : root ≠ []) {above names : List Name}
    (hnames : ∀ name ∈ above ++ names, IsName name) :
    (pathBelow root above).length ≤ (pathBelow root (above ++ names)).length := by
  induction names using List.reverseRecOn with
  | nil => exact Nat.le_of_eq (by rw [List.append_nil])
  | append_singleton front name ih =>
    rw [← List.append_assoc] at hnames ⊢
    obtain ⟨hfront, hname⟩ := List.forall_mem_append.mp hnames
    have hstep : pathBelow root (above ++ front ++ [name]) =
        Path.join (pathBelow root (above ++ front)) name := by
      rw [pathBelow, List.foldl_append]
      rfl
    have hne : pathBelow root (above ++ front) ≠ [] := by
      by_cases hnil : above ++ front = []
      · rw [hnil]
        exact hroot
      · rw [pathBelow_eq_append hroot hnil hfront, rooted]
        split <;> simp [hroot]
    rw [hstep, join_of_isName hne (hname name (List.mem_singleton_self name)), List.length_append,
      rooted]
    have hle := ih hfront
    split
    · omega
    · rw [List.length_append]
      omega

theorem join_injective {first second : List Name} (hfirst : first ≠ []) (hsecond : second ≠ [])
    (hnames : ∀ name ∈ first, IsName name) (hothers : ∀ name ∈ second, IsName name)
    (heq : Text.join [slash] first = Text.join [slash] second) : first = second := by
  rw [← Text.split_join hfirst fun name hname => (hnames name hname).noSlash,
    ← Text.split_join hsecond fun name hname => (hothers name hname).noSlash, heq]

end SourceSurvey.Scan
