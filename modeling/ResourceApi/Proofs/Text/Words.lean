import Mathlib.Data.List.Basic
import ResourceApi.Text.Words

/-!
# Characters of spellings

**Theorem (`Words.mem_spelling`).** A spelling in snake or kebab case consists of its separator and
of letters and digits, or characters beyond ASCII.

Words consist of letters and numbers. The lower case form of a letter or number below U+0080 is a
letter or digit again, and beyond it the entries of the case tables lead to such characters only.
-/

namespace ResourceApi.Text

namespace Letter

/-- A letter or digit, or a character beyond ASCII. -/
def isWordChar (c : Char) : Bool := c.isAlphanum || 128 ≤ c.toNat

/-- A run of the table leads to characters beyond ASCII, unless it is a single character that leads
to a letter. -/
theorem isWordChar_runs : LetterTable.toLower.all (fun (first, last, _, distance) =>
    (128 ≤ first + distance &&
        (last + distance < 0xD800 || (0xDFFF < first + distance && last + distance < 0x110000))) ||
      (first == last && isWordChar (Char.ofNat (first + distance).toNat))) := by
  decide +kernel

theorem isWordChar_many : LetterTable.toLowerMany.all (fun (_, partner) =>
    (partner.map Char.ofNat).all isWordChar) := by
  decide +kernel

theorem isWordChar_ofNat {n : Nat} (h : 128 ≤ n) (hv : n.isValidChar) :
    isWordChar (Char.ofNat n) := by
  have hn : (Char.ofNat n).toNat = n := by
    rw [Char.ofNat, dif_pos hv]
    rfl
  simp [isWordChar, hn, h]

theorem isWordChar_toLower_ascii {c : Char} (hc : c.toNat < 128) (h : c.isAlphanum) :
    isWordChar c.toLower := by
  have hall : ∀ n < 128, (Char.ofNat n).isAlphanum → isWordChar (Char.ofNat n).toLower := by decide
  simpa [h] using hall c.toNat hc

/-- The lower case form of a letter or number has such characters again. -/
theorem isWordChar_of_mem_toLower {c d : Char} (h : isAlphanumeric c) (hd : d ∈ toLower c) :
    isWordChar d := by
  unfold toLower at hd
  unfold isAlphanumeric at h
  split at hd
  · rename_i hc
    rw [if_pos hc] at h
    rw [List.mem_singleton.1 hd]
    exact isWordChar_toLower_ascii hc h
  · rename_i hc
    unfold mapped at hd
    split at hd
    · rename_i partner hfind
      have hlong := Array.all_eq_true_iff_forall_mem.1 isWordChar_many _
        (Array.mem_of_find?_eq_some hfind)
      exact List.all_eq_true.1 hlong d hd
    · split at hd
      · rename_i first last step distance hfind
        have hrun := Array.all_eq_true_iff_forall_mem.1 isWordChar_runs _
          (Array.mem_of_find?_eq_some hfind)
        have hin := Array.find?_some hfind
        simp only [inRun, Bool.and_eq_true, decide_eq_true_eq] at hin
        rw [List.mem_singleton.1 hd]
        simp only [Bool.or_eq_true, Bool.and_eq_true, decide_eq_true_eq, beq_iff_eq] at hrun
        rcases hrun with ⟨hleast, hmost⟩ | ⟨hsingle, hword⟩
        · have hvalid : (c.toNat + distance).toNat < 0xD800 ∨
              0xDFFF < (c.toNat + distance).toNat ∧ (c.toNat + distance).toNat < 0x110000 := by
            omega
          exact isWordChar_ofNat (by omega) hvalid
        · have hfirst : c.toNat = first := by omega
          rwa [hfirst]
      · rw [List.mem_singleton.1 hd]
        simp [isWordChar, Nat.not_lt.1 hc]

end Letter

namespace Words

/-- The runs of a name consist of letters and numbers. -/
theorem isAlphanumeric_of_mem_runs {cs current run : List Char}
    (hcurrent : ∀ c ∈ current, Letter.isAlphanumeric c) (h : run ∈ runs cs current) :
    ∀ c ∈ run, Letter.isAlphanumeric c := by
  induction cs generalizing current with
  | nil =>
    unfold runs at h
    split at h
    · cases h
    · rw [List.mem_singleton.1 h]
      simpa using hcurrent
  | cons c rest ih =>
    unfold runs at h
    split at h
    · rename_i hc
      have hadded : ∀ d ∈ c :: current, Letter.isAlphanumeric d :=
        List.forall_mem_cons.2 ⟨hc, hcurrent⟩
      exact ih hadded h
    · split at h
      · exact ih (by simp) h
      · rcases List.mem_cons.1 h with rfl | h
        · simpa using hcurrent
        · exact ih (by simp) h

/-- The words of a run consist of its characters. -/
theorem mem_of_mem_ofRun {casing : Casing} {current cs word : List Char}
    (h : word ∈ ofRun casing current cs) : ∀ c ∈ word, c ∈ current ∨ c ∈ cs := by
  fun_induction ofRun casing current cs with
  | case1 => cases h
  | case2 => simp_all
  | case3 => simp_all [or_comm]
  | case4 casing current c next rest _ ih =>
    intro d hd
    rcases List.mem_cons.1 h with rfl | h
    · simp only [List.mem_reverse, List.mem_cons] at hd
      rcases hd with rfl | hd
      · simp
      · exact .inl hd
    · have := ih h d hd
      simp_all
  | case5 casing current c next rest _ _ ih =>
    intro d hd
    rcases List.mem_cons.1 h with rfl | h
    · exact .inl (List.mem_reverse.1 hd)
    · have := ih h d hd
      simp_all
  | case6 casing current c next rest _ _ ih =>
    intro d hd
    have := ih h d hd
    simp only [List.mem_cons] at this ⊢
    tauto

theorem isAlphanumeric_of_mem_ofName {name : String} {word : List Char} (h : word ∈ ofName name) :
    ∀ c ∈ word, Letter.isAlphanumeric c := by
  obtain ⟨run, hrun, hword⟩ := List.mem_flatMap.1 h
  intro c hc
  have hin : c ∈ run := by simpa using mem_of_mem_ofRun hword c hc
  exact isAlphanumeric_of_mem_runs (by simp) hrun c hin

theorem isWordChar_of_mem_lowercase {word : List Char} (h : ∀ c ∈ word, Letter.isAlphanumeric c)
    {d : Char} (hd : d ∈ lowercase word) : Letter.isWordChar d := by
  fun_induction lowercase word with
  | case1 => cases hd
  | case2 =>
    rw [List.mem_singleton.1 hd]
    decide
  | case3 c rest _ ih =>
    rcases List.mem_append.1 hd with hd | hd
    · exact Letter.isWordChar_of_mem_toLower (h c (by simp)) hd
    · exact ih (fun e he => h e (by simp [he])) hd

theorem mem_intercalate {α : Type} {separator : α} {words : List (List α)} {c : α}
    (h : c ∈ [separator].intercalate words) : c = separator ∨ ∃ word ∈ words, c ∈ word := by
  induction words with
  | nil => simp at h
  | cons word rest ih =>
    cases rest with
    | nil => exact .inr ⟨word, by simp, by simpa using h⟩
    | cons next rest =>
      rw [List.intercalate_cons_cons] at h
      simp only [List.append_assoc, List.singleton_append, List.mem_append, List.mem_cons] at h
      rcases h with h | rfl | h
      · exact .inr ⟨word, by simp, h⟩
      · exact .inl rfl
      · obtain he | ⟨other, hother, hc⟩ := ih h
        · exact .inl he
        · exact .inr ⟨other, List.mem_cons_of_mem _ hother, hc⟩

/-- **The characters of a spelling** are its separator and characters of words. -/
theorem mem_spelling {name : String} {separator c : Char}
    (h : c ∈ [separator].intercalate ((ofName name).map lowercase)) :
    c = separator ∨ Letter.isWordChar c := by
  obtain he | ⟨word, hword, hc⟩ := mem_intercalate h
  · exact .inl he
  · obtain ⟨cased, hcased, rfl⟩ := List.mem_map.1 hword
    exact .inr (isWordChar_of_mem_lowercase (isAlphanumeric_of_mem_ofName hcased) hc)

/-- A spelling in kebab case holds no slash. -/
theorem slash_notMem_kebab (name : String) : '/' ∉ (kebab name).toList := by
  rw [kebab, String.toList_ofList]
  intro h
  exact (mem_spelling h).elim (by decide) (by decide)

/-- A spelling in snake case holds no question mark. -/
theorem mark_notMem_snake (name : String) : '?' ∉ (snake name).toList := by
  rw [snake, String.toList_ofList]
  intro h
  exact (mem_spelling h).elim (by decide) (by decide)

end Words

end ResourceApi.Text
