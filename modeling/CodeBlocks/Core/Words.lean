import Mathlib.Data.List.DropRight
import Mathlib.Data.List.TakeWhile

/-!
# Words between separators

The words of a text are its longest runs without a separator. Joining words by
one separator and taking the words of the result gives them back; joining the
words of a text gives nothing longer than the text. A stripped text has its
separators taken from both ends, and those between its words are left.
-/

namespace CodeBlocks.Words

variable {α : Type*} (sep : α → Bool)

/-- Skip separators and take the word behind them, if there is one. -/
def nextWord (text : List α) : Option (List α × List α) :=
  match text.dropWhile sep with
  | [] => none
  | c :: rest => some ((c :: rest).takeWhile fun c => !sep c, (c :: rest).dropWhile fun c => !sep c)

/-- At most so many words of a text. -/
def words : Nat → List α → List (List α)
  | 0, _ => []
  | bound + 1, text =>
    match nextWord sep text with
    | none => []
    | some (word, rest) => word :: words bound rest

/-- A text without the separators at its ends. -/
def stripped (text : List α) : List α := (text.dropWhile sep).rdropWhile sep

variable {sep}

theorem nextWord_sep {c : α} (hc : sep c = true) (text : List α) :
    nextWord sep (c :: text) = nextWord sep text := by
  rw [nextWord, nextWord, List.dropWhile_cons_of_pos hc]

theorem words_sep {c : α} (hc : sep c = true) (bound : Nat) (text : List α) :
    words sep bound (c :: text) = words sep bound text := by
  cases bound with
  | zero => rfl
  | succ bound => rw [words, words, nextWord_sep hc]

/-- A word at the front of a text, up to the end or to a separator. -/
theorem nextWord_append {word rest : List α} (hword : word ≠ [])
    (hclean : ∀ c ∈ word, sep c = false) (hrest : ∀ c, rest.head? = some c → sep c = true) :
    nextWord sep (word ++ rest) = some (word, rest) := by
  have hpos : ∀ c ∈ word, (!sep c) = true := fun c hc => by rw [hclean c hc]; rfl
  have hstop : rest.takeWhile (fun c => !sep c) = [] ∧ rest.dropWhile (fun c => !sep c) = rest := by
    cases rest with
    | nil => exact ⟨rfl, rfl⟩
    | cons c rest => simp [hrest c rfl]
  cases word with
  | nil => exact absurd rfl hword
  | cons c word =>
      have hfirst : (c :: word ++ rest).dropWhile sep = c :: (word ++ rest) := by
        rw [List.cons_append, List.dropWhile_cons_of_neg]
        simp [hclean c List.mem_cons_self]
      rw [nextWord, hfirst]
      simp only
      rw [← List.cons_append, List.takeWhile_append_of_pos hpos, List.dropWhile_append_of_pos hpos,
        hstop.1, hstop.2, List.append_nil]

/-- What `nextWord` finds. -/
theorem nextWord_eq_some {text word rest : List α} (h : nextWord sep text = some (word, rest)) :
    ∃ skipped, text = skipped ++ word ++ rest ∧ word ≠ [] ∧ (∀ c ∈ word, sep c = false) ∧
      ∀ c, rest.head? = some c → sep c = true := by
  have htext := List.takeWhile_append_dropWhile (p := sep) (l := text)
  rw [nextWord] at h
  cases hdrop : text.dropWhile sep with
  | nil => rw [hdrop] at h; cases h
  | cons c tail =>
      have hc : sep c = false := by
        have hhead := List.head?_dropWhile_not sep text
        rw [hdrop] at hhead
        simpa using hhead
      rw [hdrop] at h htext
      simp only [Option.some.injEq, Prod.mk.injEq] at h
      obtain ⟨rfl, rfl⟩ := h
      refine ⟨text.takeWhile sep, ?_, ?_, ?_, ?_⟩
      · rw [List.append_assoc, List.takeWhile_append_dropWhile, htext]
      · simp [hc]
      · intro d hd
        simpa using List.mem_takeWhile_imp hd
      · intro d hd
        have hhead := List.head?_dropWhile_not (fun c => !sep c) (c :: tail)
        rw [hd] at hhead
        simpa using hhead

/-- A word is not empty and holds no separator. -/
theorem words_clean {bound : Nat} {text word : List α} (h : word ∈ words sep bound text) :
    word ≠ [] ∧ ∀ c ∈ word, sep c = false := by
  induction bound generalizing text with
  | zero => exact absurd h List.not_mem_nil
  | succ bound ih =>
      rw [words] at h
      cases hnext : nextWord sep text with
      | none => rw [hnext] at h; exact absurd h List.not_mem_nil
      | some next =>
          obtain ⟨first, rest⟩ := next
          rw [hnext] at h
          obtain ⟨-, -, hne, hclean, -⟩ := nextWord_eq_some hnext
          rcases List.mem_cons.mp h with rfl | hrest
          · exact ⟨hne, hclean⟩
          · exact ih hrest

/-- Taking the words undoes joining them by a separator. -/
theorem words_intercalate {s : α} (hs : sep s = true) {vs : List (List α)}
    (hvs : ∀ v ∈ vs, v ≠ [] ∧ ∀ c ∈ v, sep c = false) {bound : Nat} (hbound : vs.length ≤ bound) :
    words sep bound ([s].intercalate vs) = vs := by
  induction vs generalizing bound with
  | nil => cases bound <;> rfl
  | cons v vs ih =>
      obtain ⟨hv, hrest⟩ := List.forall_mem_cons.mp hvs
      obtain ⟨bound, rfl⟩ : ∃ k, bound = k + 1 :=
        Nat.exists_eq_add_one.mpr (Nat.zero_lt_of_lt hbound)
      have hlen : vs.length ≤ bound := Nat.le_of_succ_le_succ hbound
      cases vs with
      | nil =>
          have hnext : nextWord sep (v ++ []) = some (v, []) :=
            nextWord_append hv.1 hv.2 fun c hc => by cases hc
          rw [List.append_nil] at hnext
          rw [List.intercalate_singleton, words, hnext]
          cases bound <;> rfl
      | cons w vs =>
          have hnext : nextWord sep (v ++ s :: [s].intercalate (w :: vs)) =
              some (v, s :: [s].intercalate (w :: vs)) :=
            nextWord_append hv.1 hv.2 fun c hc => Option.some.inj hc ▸ hs
          rw [List.intercalate_cons_cons, List.append_assoc, List.singleton_append, words, hnext]
          simp only
          rw [words_sep hs, ih hrest hlen]

/-- The words of a text, joined again, are no longer than the text. -/
theorem length_intercalate_words_le (s : α) (bound : Nat) (text : List α) :
    ([s].intercalate (words sep bound text)).length ≤ text.length := by
  induction bound generalizing text with
  | zero => exact Nat.zero_le _
  | succ bound ih =>
      rw [words]
      cases hnext : nextWord sep text with
      | none => exact Nat.zero_le _
      | some next =>
          obtain ⟨word, rest⟩ := next
          obtain ⟨skipped, htext, -, -, hrest⟩ := nextWord_eq_some hnext
          simp only [htext, List.length_append]
          -- the separator behind the word pays for the one that joins the next
          cases rest with
          | nil =>
              have hnil : words sep bound [] = [] := by cases bound <;> rfl
              rw [hnil, List.intercalate_singleton, List.length_nil]
              omega
          | cons c rest =>
              have htail := ih rest
              rw [words_sep (hrest c rfl)]
              cases hws : words sep bound rest with
              | nil =>
                  rw [List.intercalate_singleton, List.length_cons]
                  omega
              | cons w ws =>
                  rw [hws] at htail
                  simp only [List.intercalate_cons_cons, List.length_append, List.length_cons,
                    List.length_nil]
                  omega

/-! The ends of a text. -/

theorem rdropWhile_append (front back : List α) :
    (front ++ back).rdropWhile sep =
      if back.rdropWhile sep = [] then front.rdropWhile sep else front ++ back.rdropWhile sep := by
  simp only [List.rdropWhile, List.reverse_append, List.dropWhile_append, List.isEmpty_iff,
    List.reverse_eq_nil_iff]
  split
  · rfl
  · rw [List.reverse_append, List.reverse_reverse]

theorem stripped_isPrefix (text : List α) : stripped sep text <+: text.dropWhile sep :=
  List.rdropWhile_prefix sep _

/-- Only separators leave nothing. -/
theorem stripped_eq_nil_iff {text : List α} :
    stripped sep text = [] ↔ ∀ c ∈ text, sep c = true := by
  rw [stripped, List.rdropWhile_eq_nil_iff]
  constructor
  · intro hall
    rw [← List.takeWhile_append_dropWhile (p := sep) (l := text), List.forall_mem_append]
    exact ⟨fun c hc => List.mem_takeWhile_imp hc, hall⟩
  · exact fun hall c hc => hall c ((List.dropWhile_sublist sep).mem hc)

/-- In front of the stripped text stand the separators that the text starts with. -/
theorem takeWhile_append_stripped {text : List α} (h : stripped sep text ≠ []) :
    text.takeWhile sep ++ stripped sep text = text.rdropWhile sep := by
  have hsplit := @rdropWhile_append α sep (text.takeWhile sep) (text.dropWhile sep)
  rw [List.takeWhile_append_dropWhile] at hsplit
  exact (hsplit.trans (if_neg h)).symm

theorem rdropWhile_of_stripped_nil {text : List α} (h : stripped sep text = []) :
    text.rdropWhile sep = [] :=
  List.rdropWhile_eq_nil_iff.mpr (stripped_eq_nil_iff.mp h)

/-- A text with a stripped text that is not empty, and more behind it. -/
theorem stripped_append {text : List α} (h : stripped sep text ≠ []) (rest : List α) :
    stripped sep (text ++ rest) =
      if rest.rdropWhile sep = [] then stripped sep text
      else text.dropWhile sep ++ rest.rdropWhile sep := by
  have hdrop : text.dropWhile sep ≠ [] := by
    intro hnil
    rw [stripped, hnil] at h
    exact h rfl
  rw [stripped, List.dropWhile_append, if_neg (by rwa [List.isEmpty_iff]), rdropWhile_append]
  rfl

/-- More text behind leaves the stripped text as it is exactly when it is separators only. -/
theorem stripped_append_eq_iff {text : List α} (h : stripped sep text ≠ []) {rest : List α} :
    stripped sep (text ++ rest) = stripped sep text ↔ ∀ c ∈ rest, sep c = true := by
  rw [stripped_append h, ← List.rdropWhile_eq_nil_iff]
  constructor
  · intro heq
    by_contra hrest
    rw [if_neg hrest] at heq
    have hlen := congrArg List.length heq
    have hle := (@stripped_isPrefix α sep text).length_le
    have hpos := List.length_pos_iff.mpr hrest
    rw [List.length_append] at hlen
    omega
  · exact fun hrest => if_pos hrest

theorem head_stripped {text : List α} (h : stripped sep text ≠ []) :
    sep ((stripped sep text).head h) = false := by
  rw [(stripped_isPrefix text).head h]
  exact Bool.not_eq_true _ ▸ List.head_dropWhile_not sep _

/-- Stripping removes separators only. -/
theorem countP_stripped (text : List α) :
    (stripped sep text).countP (fun c => !sep c) = text.countP fun c => !sep c := by
  have hfront : (text.takeWhile sep).countP (fun c => !sep c) = 0 :=
    List.countP_eq_zero.mpr fun c hc => by simp [List.mem_takeWhile_imp hc]
  have hback : ((text.dropWhile sep).rtakeWhile sep).countP (fun c => !sep c) = 0 :=
    List.countP_eq_zero.mpr fun c hc => by simp [List.mem_rtakeWhile_imp hc]
  have hcount : text.countP (fun c => !sep c) =
      (text.takeWhile sep ++ (stripped sep text ++ (text.dropWhile sep).rtakeWhile sep)).countP
        fun c => !sep c := by
    rw [stripped, List.rdropWhile_append_rtakeWhile, List.takeWhile_append_dropWhile]
  rw [hcount, List.countP_append, List.countP_append, hfront, hback, Nat.zero_add, Nat.add_zero]

/-- The ends of a list of two or more are two different places. -/
theorem two_le_countP_of_ends {core : List α} (hne : core ≠ [])
    (hfirst : sep (core.head hne) = false) (hlast : sep (core.getLast hne) = false)
    (hlen : 2 ≤ core.length) : 2 ≤ core.countP fun c => !sep c := by
  cases core with
  | nil => exact absurd rfl hne
  | cons c core =>
      have hcore : core ≠ [] := List.length_pos_iff.mp (Nat.le_of_succ_le_succ hlen)
      rw [List.head_cons] at hfirst
      rw [List.getLast_cons hcore] at hlast
      have hpos : 0 < core.countP fun c => !sep c :=
        List.countP_pos_iff.mpr ⟨_, List.getLast_mem hcore, by rw [hlast]; rfl⟩
      rw [List.countP_cons_of_pos (by rw [hfirst]; rfl)]
      omega

/-- What is stripped has two characters or more exactly when two of the text are not separators. -/
theorem two_le_length_stripped_iff {text : List α} :
    2 ≤ (stripped sep text).length ↔ 2 ≤ text.countP fun c => !sep c := by
  rw [← countP_stripped]
  constructor
  · intro hlen
    have hne : stripped sep text ≠ [] := List.length_pos_iff.mp (Nat.lt_of_succ_lt hlen)
    have hlast := List.rdropWhile_last_not sep (text.dropWhile sep) hne
    exact two_le_countP_of_ends hne (head_stripped hne) (Bool.not_eq_true _ ▸ hlast) hlen
  · exact fun hcount => hcount.trans List.countP_le_length

end CodeBlocks.Words
