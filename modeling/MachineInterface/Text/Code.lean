/-!
# MachineInterface.Text.Code

Texts that can be taken apart again.  A run of characters of one class ends
where another character comes, and the words of a prefix code can be told from
their concatenation (`flatMap_append_inj`).
-/

namespace MachineInterface.Text

variable {α β γ : Type}

section Runs

variable {p : α → Bool} {xs ys rest rest' : List α}

/-- A run ends where a character of another class comes. -/
theorem dropWhile_run (hxs : ∀ c ∈ xs, p c = true) (hrest : ∀ c ∈ rest.head?, p c = false) :
    (xs ++ rest).dropWhile p = rest := by
  rw [List.dropWhile_append_of_pos hxs]
  cases rest with
  | nil => rfl
  | cons c cs => rw [List.dropWhile_cons, hrest c rfl, if_neg Bool.false_ne_true]

/-- And holds everything before that character. -/
theorem takeWhile_run (hxs : ∀ c ∈ xs, p c = true) (hrest : ∀ c ∈ rest.head?, p c = false) :
    (xs ++ rest).takeWhile p = xs := by
  have hall := List.takeWhile_append_dropWhile (p := p) (l := xs ++ rest)
  rw [dropWhile_run hxs hrest] at hall
  exact List.append_cancel_right hall

/-- Where a run ends, what follows it begins. -/
theorem run_append_inj (hxs : ∀ c ∈ xs, p c = true) (hys : ∀ c ∈ ys, p c = true)
    (hrest : ∀ c ∈ rest.head?, p c = false) (hrest' : ∀ c ∈ rest'.head?, p c = false)
    (h : xs ++ rest = ys ++ rest') : xs = ys ∧ rest = rest' := by
  have hruns := congrArg (List.takeWhile p) h
  have hbehind := congrArg (List.dropWhile p) h
  rw [takeWhile_run hxs hrest, takeWhile_run hys hrest'] at hruns
  rw [dropWhile_run hxs hrest, dropWhile_run hys hrest'] at hbehind
  exact ⟨hruns, hbehind⟩

end Runs

/-- If the words of a code can be told from what begins with them, and what
comes behind the last word begins with none, then a text of such words tells the
words, up to what `f` identifies. -/
theorem flatMap_append_inj {code : α → List γ} {f : α → β} {xs ys : List α} {rest rest' : List γ}
    (hcode : ∀ x ∈ xs, ∀ y ∈ ys, ∀ s s', code x ++ s = code y ++ s' → f x = f y ∧ s = s')
    (hrest : ∀ y ∈ ys, ∀ s, code y ++ s ≠ rest) (hrest' : ∀ x ∈ xs, ∀ s, code x ++ s ≠ rest')
    (h : xs.flatMap code ++ rest = ys.flatMap code ++ rest') :
    xs.map f = ys.map f ∧ rest = rest' := by
  induction xs generalizing ys with
  | nil =>
      cases ys with
      | nil => exact ⟨rfl, h⟩
      | cons y ys =>
          rw [List.flatMap_cons, List.append_assoc] at h
          exact (hrest y List.mem_cons_self _ h.symm).elim
  | cons x xs ih =>
      cases ys with
      | nil =>
          rw [List.flatMap_cons, List.append_assoc] at h
          exact (hrest' x List.mem_cons_self _ h).elim
      | cons y ys =>
          rw [List.flatMap_cons, List.flatMap_cons, List.append_assoc, List.append_assoc] at h
          obtain ⟨hfirst, hbehind⟩ := hcode x List.mem_cons_self y List.mem_cons_self _ _ h
          obtain ⟨hmap, heq⟩ := ih
            (fun x' hx y' hy => hcode x' (List.mem_cons_of_mem x hx) y' (List.mem_cons_of_mem y hy))
            (fun y' hy => hrest y' (List.mem_cons_of_mem y hy))
            (fun x' hx => hrest' x' (List.mem_cons_of_mem x hx)) hbehind
          exact ⟨by rw [List.map_cons, List.map_cons, hfirst, hmap], heq⟩

/-- Behind the first word each word has the separator in front of it. -/
theorem intercalate_cons_eq (sep : γ) (word : List γ) (words : List (List γ)) :
    [sep].intercalate (word :: words) = word ++ words.flatMap (sep :: ·) := by
  induction words generalizing word with
  | nil => simp
  | cons next words ih => simp [List.intercalate_cons_cons, ih]

theorem mem_intercalate {c sep : γ} {words : List (List γ)} (h : c ∈ [sep].intercalate words) :
    c = sep ∨ ∃ word ∈ words, c ∈ word := by
  cases words with
  | nil => simp at h
  | cons word words =>
      rw [intercalate_cons_eq, List.mem_append, List.mem_flatMap] at h
      rcases h with hc | ⟨next, hnext, hc⟩
      · exact .inr ⟨word, List.mem_cons_self, hc⟩
      · obtain rfl | hc := List.mem_cons.mp hc
        · exact .inl rfl
        · exact .inr ⟨next, List.mem_cons_of_mem word hnext, hc⟩

/-- The same for words between separators, where the mark behind the last word
begins none of them. -/
theorem intercalate_append_inj {code : α → List γ} {f : α → β} {sep mark : γ} (hmark : mark ≠ sep)
    {xs ys : List α} {rest rest' : List γ}
    (hcode : ∀ x ∈ xs, ∀ y ∈ ys, ∀ s s', code x ++ s = code y ++ s' → f x = f y ∧ s = s')
    (hxs : ∀ x ∈ xs, ∀ s s', code x ++ s ≠ mark :: s')
    (hys : ∀ y ∈ ys, ∀ s s', code y ++ s ≠ mark :: s')
    (h : [sep].intercalate (xs.map code) ++ mark :: rest =
      [sep].intercalate (ys.map code) ++ mark :: rest') :
    xs.map f = ys.map f ∧ rest = rest' := by
  cases xs with
  | nil =>
      cases ys with
      | nil => exact ⟨rfl, (List.cons.inj h).2⟩
      | cons y ys =>
          rw [List.map_cons, intercalate_cons_eq, List.append_assoc] at h
          exact (hys y List.mem_cons_self _ _ h.symm).elim
  | cons x xs =>
      cases ys with
      | nil =>
          rw [List.map_cons, intercalate_cons_eq, List.append_assoc] at h
          exact (hxs x List.mem_cons_self _ _ h).elim
      | cons y ys =>
          -- With a separator in front all words look alike.
          rw [List.map_cons, List.map_cons, intercalate_cons_eq, intercalate_cons_eq] at h
          have hfront : (x :: xs).flatMap (fun z => sep :: code z) ++ mark :: rest =
              (y :: ys).flatMap (fun z => sep :: code z) ++ mark :: rest' := by
            simpa [List.flatMap_map] using h
          obtain ⟨hmap, hrest⟩ := flatMap_append_inj (f := f)
            (fun x hx y hy s s' heq => hcode x hx y hy s s' (List.cons.inj heq).2)
            (fun y _ s heq => hmark (List.cons.inj heq).1.symm)
            (fun x _ s heq => hmark (List.cons.inj heq).1.symm) hfront
          exact ⟨hmap, (List.cons.inj hrest).2⟩

end MachineInterface.Text
