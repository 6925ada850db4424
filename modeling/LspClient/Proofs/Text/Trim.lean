import Mathlib.Data.List.TakeWhile
import LspClient.Text.Blank

/-!
# What trimming leaves

Trimming takes blanks away at both ends (`Text.exists_trim`), and all of them if what is between
them holds none (`Text.trim_around`).
-/

namespace LspClient.Text

/-- Characters that trimming takes away. -/
def Blanks (cs : List Char) : Prop :=
  ∀ c ∈ cs, isBlank c = true

theorem trimStart_blanks {before : List Char} (h : Blanks before) (cs : List Char) :
    trimStart (before ++ cs) = trimStart cs :=
  List.dropWhile_append_of_pos h

theorem trimEnd_blanks {after : List Char} (h : Blanks after) (cs : List Char) :
    trimEnd (cs ++ after) = trimEnd cs := by
  have hreverse : Blanks after.reverse := fun c hc => h c (List.mem_reverse.1 hc)
  rw [trimEnd, List.reverse_append, trimStart_blanks hreverse, trimEnd]

theorem trimStart_of_not {cs : List Char} (h : ∀ c ∈ cs, isBlank c = false) :
    trimStart cs = cs := by
  cases cs with
  | nil => rfl
  | cons c cs => exact List.dropWhile_cons_of_neg (by simp [h c List.mem_cons_self])

/-- Blanks behind a text change nothing. -/
theorem trim_blanks {after : List Char} (h : Blanks after) (cs : List Char) :
    trim (cs ++ after) = trim cs := by
  rw [trim, trimStart, List.dropWhile_append]
  split
  · next hnone =>
      have hall : trimStart cs = [] := List.isEmpty_iff.1 hnone
      have hafter : after.dropWhile isBlank = [] := List.dropWhile_eq_nil_iff.2 h
      rw [hafter, trim, hall]
  · exact trimEnd_blanks h _

theorem trim_around {before word after : List Char} (hbefore : Blanks before)
    (hword : ∀ c ∈ word, isBlank c = false) (hafter : Blanks after) :
    trim (before ++ (word ++ after)) = word := by
  have hreverse : ∀ c ∈ word.reverse, isBlank c = false :=
    fun c hc => hword c (List.mem_reverse.1 hc)
  rw [← List.append_assoc, trim_blanks hafter, trim, trimStart_blanks hbefore,
    trimStart_of_not hword, trimEnd, trimStart_of_not hreverse, List.reverse_reverse]

theorem exists_trim (cs : List Char) : ∃ before after, Blanks before ∧ Blanks after ∧
    cs = before ++ (trim cs ++ after) := by
  have htake (cs : List Char) : Blanks (cs.takeWhile isBlank) :=
    fun c hc => List.mem_takeWhile_imp hc
  refine ⟨cs.takeWhile isBlank, ((trimStart cs).reverse.takeWhile isBlank).reverse, htake cs,
    fun c hc => htake _ c (List.mem_reverse.1 hc), ?_⟩
  rw [trim, trimEnd, trimStart, ← List.reverse_append, List.takeWhile_append_dropWhile,
    List.reverse_reverse, trimStart, List.takeWhile_append_dropWhile]

end LspClient.Text
