import Mathlib.Data.List.DropRight

/-! # Normal forms by trimming

A text is compared up to blanks around it, marks at its end and the case of its letters by bringing
it to a normal form: blanks are trimmed, then marks are taken off the end, then letters are folded.
Folding and blanks never make a difference (`form_eq_of_fold`, `form_around`).  Marks do in one
case: behind a blank they keep it from being trimmed (`form_append_iff`), which is also when the
normal form is not normal (`form_form_iff`). -/

namespace ArmatureWebsocket

section ends

variable {α : Type*} {p : α → Bool} {xs ys : List α}

theorem rdropWhile_append_of_all (h : ∀ y ∈ ys, p y = true) :
    (xs ++ ys).rdropWhile p = xs.rdropWhile p := by
  unfold List.rdropWhile
  rw [List.reverse_append, List.dropWhile_append_of_pos]
  intro y hy
  exact h y (List.mem_reverse.mp hy)

theorem rdropWhile_concat_of_not {y : α} (h : p y = false) :
    (xs ++ [y]).rdropWhile p = xs ++ [y] :=
  List.rdropWhile_concat_neg p xs y (by simp [h])

/-- The part taken off the end. -/
theorem exists_eq_rdropWhile_append (p : α → Bool) (xs : List α) :
    ∃ ys, xs = xs.rdropWhile p ++ ys ∧ ∀ y ∈ ys, p y = true :=
  ⟨xs.rtakeWhile p, List.rdropWhile_append_rtakeWhile.symm, fun _ => List.mem_rtakeWhile_imp⟩

theorem exists_eq_append_dropWhile (p : α → Bool) (xs : List α) :
    ∃ ys, xs = ys ++ xs.dropWhile p ∧ ∀ y ∈ ys, p y = true :=
  ⟨xs.takeWhile p, List.takeWhile_append_dropWhile.symm, fun _ => List.mem_takeWhile_imp⟩

theorem dropWhile_of_isPrefix (h : ys <+: xs.dropWhile p) : ys.dropWhile p = ys := by
  cases ys with
  | nil => rfl
  | cons y ys =>
      have hhead := List.head?_dropWhile_not p xs
      obtain ⟨zs, hzs⟩ := h
      rw [← hzs] at hhead
      have hy : p y = false := hhead
      exact List.dropWhile_cons_of_neg (by simp [hy])

theorem rdropWhile_map {β : Type*} (f : β → α) (zs : List β) :
    (zs.map f).rdropWhile p = (zs.rdropWhile (p ∘ f)).map f := by
  unfold List.rdropWhile
  rw [← List.map_reverse, List.dropWhile_map, List.map_reverse]

end ends

/-- Which letters are blanks and which are marks, and how letters are folded. -/
structure Alphabet (α : Type*) where
  blank : α → Bool
  mark : α → Bool
  fold : α → α
  fold_fold : ∀ a, fold (fold a) = fold a
  blank_fold : ∀ a, blank (fold a) = blank a
  mark_fold : ∀ a, mark (fold a) = mark a
  blank_of_mark : ∀ a, mark a = true → blank a = false

namespace Alphabet

variable {α : Type*} (A : Alphabet α)

/-- Without blanks at either end. -/
def trimmed (xs : List α) : List α := (xs.dropWhile A.blank).rdropWhile A.blank

/-- The normal form. -/
def form (xs : List α) : List α := ((A.trimmed xs).rdropWhile A.mark).map A.fold

/-- The last letter is a blank. -/
def BlankLast (xs : List α) : Prop := ∃ ys c, xs = ys ++ [c] ∧ A.blank c = true

/-- It has a blank at its end, and not only blanks before it. -/
def EndsBlank (xs : List α) : Prop := (∃ a ∈ xs, A.blank a = false) ∧ A.BlankLast xs

/-- There are marks behind a blank at its end. -/
def Strands (xs : List α) : Prop :=
  ∃ ys ms back, xs = ys ++ ms ++ back ∧ A.EndsBlank ys ∧ ms ≠ [] ∧
    (∀ m ∈ ms, A.mark m = true) ∧ ∀ c ∈ back, A.blank c = true

/-- It is the core, but for the case of letters, blanks around it and marks at its end. -/
def Spells (core xs : List α) : Prop :=
  ∃ front body ms back, xs = front ++ body ++ ms ++ back ∧ body.map A.fold = core ∧
    (∀ c ∈ front, A.blank c = true) ∧ (∀ m ∈ ms, A.mark m = true) ∧ ∀ c ∈ back, A.blank c = true

variable {A} {xs ys : List α}

theorem mark_of_blank {c : α} (h : A.blank c = true) : A.mark c = false := by
  cases hmark : A.mark c with
  | false => rfl
  | true =>
      rw [A.blank_of_mark c hmark] at h
      cases h

/-! ### Case -/

theorem trimmed_fold (xs : List α) : A.trimmed (xs.map A.fold) = (A.trimmed xs).map A.fold := by
  have hblank : A.blank ∘ A.fold = A.blank := funext A.blank_fold
  unfold trimmed
  rw [List.dropWhile_map, rdropWhile_map, hblank]

theorem form_fold (xs : List α) : A.form (xs.map A.fold) = A.form xs := by
  have hmark : A.mark ∘ A.fold = A.mark := funext A.mark_fold
  unfold form
  rw [trimmed_fold, rdropWhile_map, hmark, List.map_map]
  exact List.map_congr_left fun a _ => A.fold_fold a

theorem form_eq_of_fold (h : ys.map A.fold = xs.map A.fold) : A.form ys = A.form xs := by
  rw [← form_fold ys, h, form_fold]

/-! ### Blanks -/

theorem trimmed_append_blank (h : ∀ c ∈ ys, A.blank c = true) :
    A.trimmed (xs ++ ys) = A.trimmed xs := by
  unfold trimmed
  rw [List.dropWhile_append]
  split_ifs with hempty
  · rw [List.isEmpty_iff.mp hempty, List.dropWhile_eq_nil_iff.mpr h]
  · rw [rdropWhile_append_of_all h]

theorem trimmed_around {front back : List α} (hfront : ∀ c ∈ front, A.blank c = true)
    (hback : ∀ c ∈ back, A.blank c = true) : A.trimmed (front ++ xs ++ back) = A.trimmed xs := by
  rw [trimmed_append_blank hback]
  unfold trimmed
  rw [List.dropWhile_append_of_pos hfront]

/-- Blanks around a text are not in its normal form. -/
theorem form_around {front back : List α} (hfront : ∀ c ∈ front, A.blank c = true)
    (hback : ∀ c ∈ back, A.blank c = true) : A.form (front ++ xs ++ back) = A.form xs := by
  unfold form
  rw [trimmed_around hfront hback]

/-! ### Marks -/

theorem dropWhile_marks (h : ∀ m ∈ ys, A.mark m = true) : ys.dropWhile A.blank = ys := by
  cases ys with
  | nil => rfl
  | cons m ms =>
      have hblank := A.blank_of_mark m (h m List.mem_cons_self)
      exact List.dropWhile_cons_of_neg (by simp [hblank])

theorem rdropWhile_append_marks (hne : ys ≠ []) (h : ∀ m ∈ ys, A.mark m = true) :
    (xs ++ ys).rdropWhile A.blank = xs ++ ys := by
  obtain ⟨ms, m, rfl⟩ := List.eq_nil_or_concat' ys |>.resolve_left hne
  rw [← List.append_assoc]
  apply rdropWhile_concat_of_not
  exact A.blank_of_mark m (h m (by simp))

theorem trimmed_append_marks (hne : ys ≠ []) (h : ∀ m ∈ ys, A.mark m = true) :
    A.trimmed (xs ++ ys) = xs.dropWhile A.blank ++ ys := by
  have hback (zs : List α) : (zs ++ ys).rdropWhile A.blank = zs ++ ys :=
    rdropWhile_append_marks hne h
  unfold trimmed
  rw [List.dropWhile_append]
  split_ifs with hempty
  · rw [List.isEmpty_iff.mp hempty, dropWhile_marks h]
    exact hback []
  · exact hback _

theorem form_append_marks (hne : ys ≠ []) (h : ∀ m ∈ ys, A.mark m = true) :
    A.form (xs ++ ys) = ((xs.dropWhile A.blank).rdropWhile A.mark).map A.fold := by
  unfold form
  rw [trimmed_append_marks hne h, rdropWhile_append_of_all h]

/-- It makes a difference whether blanks are taken off before marks exactly when the last letter is
a blank. -/
theorem rdropWhile_eq_iff (xs : List α) :
    ((xs.rdropWhile A.blank).rdropWhile A.mark).map A.fold = (xs.rdropWhile A.mark).map A.fold ↔
      ¬ A.BlankLast xs := by
  refine ⟨fun heq => ?_, fun hlast => ?_⟩
  · rintro ⟨ys, c, rfl, hc⟩
    have hkept : (ys ++ [c]).rdropWhile A.mark = ys ++ [c] :=
      rdropWhile_concat_of_not (mark_of_blank hc)
    have hlength := congrArg List.length heq
    have hle := (List.rdropWhile_prefix A.mark (ys.rdropWhile A.blank)).length_le
    have hle' := (List.rdropWhile_prefix A.blank ys).length_le
    rw [hkept, List.rdropWhile_concat_pos _ _ _ hc] at hlength
    simp only [List.length_map, List.length_append, List.length_singleton] at hlength
    omega
  · have hkept : xs.rdropWhile A.blank = xs := by
      obtain rfl | ⟨ys, c, rfl⟩ := List.eq_nil_or_concat' xs
      · rfl
      · apply rdropWhile_concat_of_not
        cases hc : A.blank c with
        | false => rfl
        | true => exact absurd ⟨ys, c, rfl, hc⟩ hlast
    rw [hkept]

theorem blankLast_dropWhile_iff : A.BlankLast (xs.dropWhile A.blank) ↔ A.EndsBlank xs := by
  obtain ⟨front, hxs, hfront⟩ := exists_eq_append_dropWhile A.blank xs
  refine ⟨fun ⟨ys, c, hys, hc⟩ => ?_, fun ⟨⟨a, ha, hblank⟩, ys, c, hys, hc⟩ => ?_⟩
  · refine ⟨?_, front ++ ys, c, ?_, hc⟩
    · by_contra hall
      have hnil : xs.dropWhile A.blank = [] := by
        rw [List.dropWhile_eq_nil_iff]
        intro a ha
        cases hblank : A.blank a with
        | true => rfl
        | false => exact absurd ⟨a, ha, hblank⟩ hall
      rw [hnil] at hys
      simp at hys
    · rw [List.append_assoc, ← hys]
      exact hxs
  · obtain hnil | ⟨zs, d, hzs⟩ := List.eq_nil_or_concat' (xs.dropWhile A.blank)
    · rw [List.dropWhile_eq_nil_iff.mp hnil a ha] at hblank
      cases hblank
    · refine ⟨zs, d, hzs, ?_⟩
      rw [hzs, ← List.append_assoc, hys] at hxs
      obtain ⟨-, hd⟩ := List.append_inj' hxs rfl
      cases hd
      exact hc

/-- **Marks put behind a text** leave its normal form as it is unless the text ends in a blank and
is not blank altogether. -/
theorem form_append_iff (hne : ys ≠ []) (h : ∀ m ∈ ys, A.mark m = true) :
    A.form (xs ++ ys) = A.form xs ↔ ¬ A.EndsBlank xs := by
  rw [form_append_marks hne h, ← blankLast_dropWhile_iff, eq_comm]
  exact rdropWhile_eq_iff (xs.dropWhile A.blank)

/-! ### The normal form itself -/

theorem trimmed_isPrefix (xs : List α) : A.trimmed xs <+: xs.dropWhile A.blank :=
  List.rdropWhile_prefix A.blank _

/-- What is trimmed, with the blanks around it. -/
theorem exists_eq_around_trimmed (A : Alphabet α) (xs : List α) :
    ∃ front back, xs = front ++ A.trimmed xs ++ back ∧ (∀ c ∈ front, A.blank c = true) ∧
      ∀ c ∈ back, A.blank c = true := by
  obtain ⟨front, hxs, hfront⟩ := exists_eq_append_dropWhile A.blank xs
  obtain ⟨back, hdrop, hback⟩ := exists_eq_rdropWhile_append A.blank (xs.dropWhile A.blank)
  refine ⟨front, back, ?_, hfront, hback⟩
  rw [List.append_assoc]
  exact hxs.trans (congrArg (front ++ ·) hdrop)

theorem not_blankLast_trimmed (xs : List α) : ¬ A.BlankLast (A.trimmed xs) := by
  rintro ⟨ys, c, htrimmed, hc⟩
  have hidem : (A.trimmed xs).rdropWhile A.blank = A.trimmed xs := List.rdropWhile_idempotent _ _
  rw [htrimmed, List.rdropWhile_concat_pos _ _ _ hc] at hidem
  have hle := (List.rdropWhile_prefix A.blank ys).length_le
  rw [hidem, List.length_append, List.length_singleton] at hle
  omega

theorem endsBlank_of_isPrefix (hpre : ys <+: xs.dropWhile A.blank) (hlast : A.BlankLast ys) :
    A.EndsBlank ys := by
  have hkept := dropWhile_of_isPrefix hpre
  rw [← hkept] at hlast
  exact blankLast_dropWhile_iff.mp hlast

theorem strands_iff : A.Strands xs ↔ A.BlankLast ((A.trimmed xs).rdropWhile A.mark) := by
  refine ⟨?_, fun hlast => ?_⟩
  · rintro ⟨ys, ms, back, rfl, hends, hne, hmark, hback⟩
    rw [trimmed_append_blank hback, trimmed_append_marks hne hmark, rdropWhile_append_of_all hmark]
    obtain ⟨zs, c, hzs, hc⟩ := blankLast_dropWhile_iff.mpr hends
    rw [hzs, rdropWhile_concat_of_not (mark_of_blank hc)]
    exact ⟨zs, c, rfl, hc⟩
  · obtain ⟨front, back, hxs, hfront, hback⟩ := exists_eq_around_trimmed A xs
    obtain ⟨ms, htrimmed, hmark⟩ := exists_eq_rdropWhile_append A.mark (A.trimmed xs)
    have hpre := (List.rdropWhile_prefix A.mark (A.trimmed xs)).trans (trimmed_isPrefix xs)
    obtain ⟨⟨a, ha, hblank⟩, ys, c, hys, hc⟩ := endsBlank_of_isPrefix hpre hlast
    refine ⟨front ++ (A.trimmed xs).rdropWhile A.mark, ms, back, ?_, ⟨⟨a, ?_, hblank⟩, ?_⟩, ?_,
      hmark, hback⟩
    · rw [List.append_assoc front, ← htrimmed]
      exact hxs
    · exact List.mem_append_right front ha
    · exact ⟨front ++ ys, c, by rw [hys, List.append_assoc], hc⟩
    · rintro rfl
      rw [List.append_nil] at htrimmed
      rw [← htrimmed] at hlast
      exact not_blankLast_trimmed xs hlast

/-- **The normal form is normal** unless marks behind a blank were taken off. -/
theorem form_form_iff (xs : List α) : A.form (A.form xs) = A.form xs ↔ ¬ A.Strands xs := by
  have hfront : ((A.trimmed xs).rdropWhile A.mark).dropWhile A.blank
      = (A.trimmed xs).rdropWhile A.mark :=
    dropWhile_of_isPrefix ((List.rdropWhile_prefix A.mark _).trans (trimmed_isPrefix xs))
  have hleft : A.form (A.form xs)
      = ((((A.trimmed xs).rdropWhile A.mark).rdropWhile A.blank).rdropWhile A.mark).map A.fold := by
    have hform : A.form xs = ((A.trimmed xs).rdropWhile A.mark).map A.fold := rfl
    rw [hform, form_fold, form, trimmed, hfront]
  have hright : A.form xs
      = (((A.trimmed xs).rdropWhile A.mark).rdropWhile A.mark).map A.fold := by
    rw [List.rdropWhile_idempotent, form]
  rw [hleft, hright, rdropWhile_eq_iff, strands_iff]

/-- A text is its normal form, but for the case of letters, blanks around it and marks at its
end. -/
theorem spells_form (xs : List α) : A.Spells (A.form xs) xs := by
  obtain ⟨front, back, hxs, hfront, hback⟩ := exists_eq_around_trimmed A xs
  obtain ⟨ms, htrimmed, hmark⟩ := exists_eq_rdropWhile_append A.mark (A.trimmed xs)
  refine ⟨front, (A.trimmed xs).rdropWhile A.mark, ms, back, ?_, rfl, hfront, hmark, hback⟩
  rw [List.append_assoc front, ← htrimmed]
  exact hxs

/-! ### The letters of a normal form -/

theorem form_trimmed (xs : List α) : A.form (A.trimmed xs) = A.form xs := by
  obtain ⟨front, back, hxs, hfront, hback⟩ := exists_eq_around_trimmed A xs
  conv_rhs => rw [hxs]
  exact (form_around hfront hback).symm

theorem mem_of_mem_trimmed {a : α} (ha : a ∈ A.trimmed xs) : a ∈ xs :=
  (List.dropWhile_suffix _).subset ((trimmed_isPrefix xs).subset ha)

/-- What all letters have does not depend on whether marks are taken off and letters folded, if
marks have it and folding respects it. -/
theorem forall_form_iff {P : α → Prop} (hfold : ∀ a, P (A.fold a) ↔ P a)
    (hmark : ∀ a, A.mark a = true → P a) :
    (∀ a ∈ A.form xs, P a) ↔ ∀ a ∈ A.trimmed xs, P a := by
  obtain ⟨ms, htrimmed, hms⟩ := exists_eq_rdropWhile_append A.mark (A.trimmed xs)
  refine ⟨fun hall a ha => ?_, fun hall a ha => ?_⟩
  · rw [htrimmed, List.mem_append] at ha
    obtain ha | ha := ha
    · exact (hfold a).mp (hall _ (List.mem_map_of_mem ha))
    · exact hmark a (hms a ha)
  · obtain ⟨b, hb, rfl⟩ := List.mem_map.mp ha
    exact (hfold b).mpr (hall b ((List.rdropWhile_prefix A.mark _).subset hb))

end Alphabet
end ArmatureWebsocket
