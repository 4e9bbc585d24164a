import Mathlib.Data.List.Basic
import Mathlib.Data.List.Infix
import Mathlib.Tactic.SplitIfs

/-!
The words of a text over any alphabet with a separator: the pieces between
separators that are not empty. The rules take a text apart from the left, one
character or one run of separators at a time, as a reader of it would.
-/
namespace Mp3Kernel.Words
universe u

variable {α : Type u} [DecidableEq α] {sep : α}

def words (sep : α) (text : List α) : List (List α) := (text.splitOn sep).filter (fun word => word ≠ [])

/-- The words with one separator between two. -/
def joined (sep : α) (ws : List (List α)) : List α := [sep].intercalate ws

theorem splitOn_cons (x : α) (xs : List α) :
    (x :: xs).splitOn sep = if x = sep then [] :: xs.splitOn sep else (xs.splitOn sep).modifyHead (x :: ·) := by
  simp [List.splitOn,List.splitOnP_cons_eq_if_modifyHead]

@[simp] theorem words_nil : words sep [] = [] := by simp [words,List.splitOn]

theorem words_sep (xs : List α) : words sep (sep :: xs) = words sep xs := by simp [words,splitOn_cons]

variable (sep) in
/-- The first piece ends at the first separator. -/
theorem splitOn_eq (text : List α) : ∃ pieces, text.splitOn sep = text.takeWhile (· ≠ sep) :: pieces ∧
    pieces.filter (fun word => word ≠ []) = words sep (text.dropWhile (· ≠ sep)) := by
  induction text with
  | nil => exact ⟨[],by simp [List.splitOn],by simp⟩
  | cons x xs ih =>
    by_cases ends : x = sep
    · refine ⟨xs.splitOn sep,by simp [splitOn_cons,ends],?_⟩
      rw [List.dropWhile_cons_of_neg (by simpa using ends),ends,words_sep,words]
    · obtain ⟨pieces,split,rest⟩ := ih
      refine ⟨pieces,?_,?_⟩
      · rw [splitOn_cons,if_neg ends,split,List.takeWhile_cons_of_pos (by simpa using ends),List.modifyHead_cons]
      · rw [rest,List.dropWhile_cons_of_pos (by simpa using ends)]

/-- A word at the start is taken off whole. -/
theorem words_cons {x : α} (char : x ≠ sep) (xs : List α) :
    words sep (x :: xs) = (x :: xs.takeWhile (· ≠ sep)) :: words sep (xs.dropWhile (· ≠ sep)) := by
  obtain ⟨pieces,split,rest⟩ := splitOn_eq sep xs
  rw [words,splitOn_cons,if_neg char,split,List.modifyHead_cons,List.filter_cons_of_pos (by simp),rest]

theorem words_sep_run {text : List α} (n : Nat) : words sep (List.replicate n sep ++ text) = words sep text := by
  induction n with
  | zero => rfl
  | succ n ih => rw [List.replicate_succ,List.cons_append,words_sep,ih]

/-- The text does not end in a separator. -/
def Trimmed (sep : α) (text : List α) : Prop := text.getLast? ≠ some sep

omit [DecidableEq α] in
theorem Trimmed.tail {x : α} {xs : List α} (trimmed : Trimmed sep (x :: xs)) : Trimmed sep xs := by
  cases xs with
  | nil => simp [Trimmed]
  | cons y ys => simpa [Trimmed] using trimmed

omit [DecidableEq α] in
theorem Trimmed.suffix {front back : List α} (trimmed : Trimmed sep (front ++ back)) : Trimmed sep back := by
  induction front with
  | nil => exact trimmed
  | cons x front ih => exact ih trimmed.tail

/-- A trimmed text that starts with a separator has a word after the run. -/
theorem Trimmed.sep_run {xs : List α} (trimmed : Trimmed sep (sep :: xs)) :
    ∃ n x rest, sep :: xs = List.replicate (n + 1) sep ++ x :: rest ∧ x ≠ sep := by
  induction xs with
  | nil => exact absurd rfl trimmed
  | cons y ys ih =>
    by_cases char : y = sep
    · subst char
      obtain ⟨n,x,rest,run,char⟩ := ih trimmed.tail
      exact ⟨n + 1,x,rest,by rw [run]; rfl,char⟩
    · exact ⟨0,y,ys,rfl,char⟩

theorem words_ne_nil {text : List α} (some_ : text ≠ []) (trimmed : Trimmed sep text) : words sep text ≠ [] := by
  induction text with
  | nil => exact absurd rfl some_
  | cons x xs ih =>
    by_cases char : x = sep
    · subst char
      have more : xs ≠ [] := by
        rintro rfl
        exact trimmed rfl
      rw [words_sep]
      exact ih more trimmed.tail
    · rw [words_cons char]
      exact List.cons_ne_nil _ _

/-- What is left of a text whose runs of separators are squeezed into one. -/
def squeezed (sep : α) (text : List α) : List α :=
  if text.head? = some sep then sep :: joined sep (words sep text) else joined sep (words sep text)

@[simp] theorem squeezed_nil : squeezed sep [] = [] := by simp [squeezed,joined]

omit [DecidableEq α] in
theorem joined_cons_of_ne_nil (word : List α) {ws : List (List α)} (more : ws ≠ []) :
    joined sep (word :: ws) = word ++ sep :: joined sep ws := by
  cases ws with
  | nil => exact absurd rfl more
  | cons next ws => simp [joined,List.intercalate]

omit [DecidableEq α] in
/-- The joined words are made of their own items and the separator. -/
theorem mem_joined {c : α} {ws : List (List α)} (inside : c ∈ joined sep ws) : c = sep ∨ ∃ word ∈ ws, c ∈ word := by
  induction ws with
  | nil => simp [joined] at inside
  | cons word ws ih =>
    by_cases last : ws = []
    · subst last
      exact .inr ⟨word,List.mem_cons_self,by simpa [joined] using inside⟩
    · rw [joined_cons_of_ne_nil word last,List.mem_append,List.mem_cons] at inside
      rcases inside with here | rfl | later
      · exact .inr ⟨word,List.mem_cons_self,here⟩
      · exact .inl rfl
      · obtain rfl | ⟨other,listed,within⟩ := ih later
        · exact .inl rfl
        · exact .inr ⟨other,List.mem_cons_of_mem _ listed,within⟩

omit [DecidableEq α] in
theorem joined_mem {c : α} {word : List α} {ws : List (List α)} (listed : word ∈ ws) (inside : c ∈ word) :
    c ∈ joined sep ws := by
  induction ws with
  | nil => cases listed
  | cons first ws ih =>
    rcases List.mem_cons.mp listed with rfl | later
    · cases ws with
      | nil => simpa [joined] using inside
      | cons next ws =>
        rw [joined_cons_of_ne_nil word (List.cons_ne_nil next ws)]
        exact List.mem_append_left _ inside
    · rw [joined_cons_of_ne_nil first (List.ne_nil_of_mem later)]
      exact List.mem_append_right _ (List.mem_cons_of_mem _ (ih later))

/-- Words are made of the text. -/
theorem mem_words {c : α} {word text : List α} (listed : word ∈ words sep text) (inside : c ∈ word) : c ∈ text := by
  have piece : c ∈ joined sep (text.splitOn sep) := joined_mem (List.mem_filter.mp listed).1 inside
  rwa [joined,List.intercalate_splitOn] at piece

theorem squeezed_char {x : α} {xs : List α} (char : x ≠ sep) (trimmed : Trimmed sep xs) :
    squeezed sep (x :: xs) = x :: squeezed sep xs := by
  rw [squeezed,if_neg (by simpa using char)]
  cases xs with
  | nil => simp [words_cons char,joined]
  | cons y ys =>
    by_cases next : y = sep
    · subst next
      have more := words_ne_nil (List.cons_ne_nil y ys) trimmed
      rw [words_cons char,List.takeWhile_cons_of_neg (by simp),List.dropWhile_cons_of_neg (by simp),
        joined_cons_of_ne_nil [x] more,squeezed,if_pos List.head?_cons]
      rfl
    · rw [words_cons char,List.takeWhile_cons_of_pos (by simpa using next),
        List.dropWhile_cons_of_pos (by simpa using next),squeezed,if_neg (by simpa using next),words_cons next]
      cases words sep (ys.dropWhile (· ≠ sep)) with
      | nil => simp [joined]
      | cons word ws => simp [joined,List.intercalate]

/-- A run of separators before a word leaves one. -/
theorem squeezed_sep_run {x : α} {xs : List α} (n : Nat) (char : x ≠ sep) :
    squeezed sep (List.replicate (n + 1) sep ++ x :: xs) = sep :: squeezed sep (x :: xs) := by
  have first : (List.replicate (n + 1) sep ++ x :: xs).head? = some sep := by simp [List.replicate_succ]
  have other : (x :: xs).head? ≠ some sep := by simpa using char
  rw [squeezed,if_pos first,words_sep_run,squeezed,if_neg other]

end Mp3Kernel.Words
