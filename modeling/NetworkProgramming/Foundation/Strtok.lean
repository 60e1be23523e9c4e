import Mathlib.Algebra.Order.BigOperators.Group.List
import Mathlib.Algebra.Order.Group.Nat
import NetworkProgramming.Foundation.CArray

/-!
# `strtok` with one delimiter

`tokens` says which tokens a string has.  `strtok` is one call on a buffer with
the position at which the previous call stopped: it skips delimiters, puts a
NUL behind the token and moves the position past it.  Successive calls return
the tokens of the string in order.
-/

open MachineInt

namespace Strtok

variable {delimiter : Byte}

/-- The maximal parts of a text without the delimiter, except the empty ones. -/
def tokens (delimiter : Byte) (text : List Byte) : List (List Byte) :=
  (text.splitOn delimiter).filter (· ≠ [])

/-- The text behind leading delimiters. -/
def skip (delimiter : Byte) (text : List Byte) : List Byte :=
  text.dropWhile (· = delimiter)

/-- The part of a text in front of the next delimiter. -/
def word (delimiter : Byte) (text : List Byte) : List Byte :=
  text.takeWhile (· ≠ delimiter)

@[simp] theorem tokens_nil : tokens delimiter [] = [] := rfl

@[simp] theorem tokens_delimiter (text : List Byte) :
    tokens delimiter (delimiter :: text) = tokens delimiter text := by
  simp [tokens, List.splitOn_cons_eq_if_modifyHead]

theorem tokens_skip (text : List Byte) :
    tokens delimiter (skip delimiter text) = tokens delimiter text := by
  induction text with
  | nil => rfl
  | cons byte text induction =>
      by_cases same : byte = delimiter
      · subst byte
        simpa [skip] using induction
      · simp [skip, same]

theorem tokens_word {text : List Byte} (nonempty : text ≠ [])
    (plain : delimiter ∉ text) : tokens delimiter text = [text] := by
  simp [tokens, List.splitOn_eq_singleton plain, nonempty]

theorem tokens_word_append {text : List Byte} (nonempty : text ≠ [])
    (plain : delimiter ∉ text) (rest : List Byte) :
    tokens delimiter (text ++ delimiter :: rest) =
      text :: tokens delimiter rest := by
  unfold tokens
  rw [List.splitOn_append_cons_self, List.splitOn_eq_singleton plain]
  simp [nonempty]

theorem delimiter_notMem_word (text : List Byte) :
    delimiter ∉ word delimiter text := by
  intro member
  simpa using List.mem_takeWhile_imp member

theorem word_split (text : List Byte) :
    word delimiter text = text ∨
      ∃ rest, text = word delimiter text ++ delimiter :: rest := by
  induction text with
  | nil => exact .inl rfl
  | cons byte text induction =>
      by_cases same : byte = delimiter
      · exact .inr ⟨text, by simp [word, same]⟩
      · have front : word delimiter (byte :: text) =
            byte :: word delimiter text := by simp [word, same]
        rcases induction with whole | ⟨rest, split⟩
        · exact .inl (by rw [front, whole])
        · refine .inr ⟨rest, ?_⟩
          rw [front, List.cons_append, ← split]

theorem skip_split (text : List Byte) :
    ∃ spaces, text = spaces ++ skip delimiter text ∧
      spaces.length = text.length - (skip delimiter text).length := by
  have split : text.takeWhile (· = delimiter) ++ skip delimiter text = text :=
    List.takeWhile_append_dropWhile
  refine ⟨text.takeWhile (· = delimiter), split.symm, ?_⟩
  have length := congrArg List.length split
  rw [List.length_append] at length
  omega

theorem word_skip_ne_nil {text : List Byte} (more : skip delimiter text ≠ []) :
    word delimiter (skip delimiter text) ≠ [] := by
  induction text with
  | nil => exact absurd rfl more
  | cons byte text induction =>
      by_cases same : byte = delimiter
      · have front : skip delimiter (byte :: text) = skip delimiter text := by
          simp [skip, same]
        rw [front] at more ⊢
        exact induction more
      · simp [skip, word, same]

theorem sum_length_splitOn (text : List Byte) :
    ((text.splitOn delimiter).map fun part => part.length + 1).sum =
      text.length + 1 := by
  induction text with
  | nil => rfl
  | cons byte text induction =>
      rw [List.splitOn_cons_eq_if_modifyHead]
      split
      · simp only [List.map_cons, List.sum_cons, List.length_nil,
          List.length_cons, induction]
        omega
      · obtain ⟨head, tail, shape⟩ :=
          List.exists_cons_of_ne_nil (List.splitOn_ne_nil delimiter text)
        rw [shape] at induction ⊢
        simp only [List.modifyHead_cons, List.map_cons, List.sum_cons,
          List.length_cons] at induction ⊢
        omega

theorem sum_length_tokens_le (text : List Byte) :
    ((tokens delimiter text).map fun token => token.length + 1).sum ≤
      text.length + 1 := by
  rw [← @sum_length_splitOn delimiter text]
  exact (List.filter_sublist.map _).sum_le_sum (fun _ _ => Nat.zero_le _)

theorem ne_nil_of_mem_tokens {text token : List Byte}
    (member : token ∈ tokens delimiter text) : token ≠ [] := by
  simpa using (List.mem_filter.mp member).2

theorem mem_of_mem_tokens {text token : List Byte} {byte : Byte}
    (isToken : token ∈ tokens delimiter text) (member : byte ∈ token) :
    byte ∈ text := by
  have part := List.mem_of_mem_filter isToken
  clear isToken
  induction text generalizing token with
  | nil =>
      simp only [List.splitOn_nil, List.mem_singleton] at part
      rw [part] at member
      cases member
  | cons first text induction =>
      rw [List.splitOn_cons_eq_if_modifyHead] at part
      split at part
      · rcases List.mem_cons.mp part with rfl | later
        · cases member
        · exact List.mem_cons_of_mem _ (induction member later)
      · obtain ⟨head, tail, shape⟩ :=
          List.exists_cons_of_ne_nil (List.splitOn_ne_nil delimiter text)
        rw [shape, List.modifyHead_cons] at part
        rcases List.mem_cons.mp part with rfl | later
        · rcases List.mem_cons.mp member with rfl | inside
          · exact List.mem_cons_self
          · exact List.mem_cons_of_mem _ (induction inside (by simp [shape]))
        · exact List.mem_cons_of_mem _ (induction member (by simp [shape, later]))

theorem tokens_of_more {text : List Byte} (more : skip delimiter text ≠ []) :
    (word delimiter (skip delimiter text) = skip delimiter text ∧
      tokens delimiter text = [word delimiter (skip delimiter text)]) ∨
    ∃ rest, skip delimiter text =
        word delimiter (skip delimiter text) ++ delimiter :: rest ∧
      tokens delimiter text =
        word delimiter (skip delimiter text) :: tokens delimiter rest := by
  have nonempty := word_skip_ne_nil more
  have plain := @delimiter_notMem_word delimiter (skip delimiter text)
  have found := @tokens_skip delimiter text
  rcases @word_split delimiter (skip delimiter text) with whole | ⟨rest, split⟩
  · refine .inl ⟨whole, ?_⟩
    rw [whole] at nonempty plain ⊢
    rw [← found, tokens_word nonempty plain]
  · refine .inr ⟨rest, split, ?_⟩
    rw [split, tokens_word_append nonempty plain] at found
    exact found.symm

/-! ## One call -/

variable {size : Nat}

/-- `strtok` from a position of a buffer: the token, if there is one, the
buffer and the new position.  A buffer without a NUL behind the position has
no result. -/
def strtok (delimiter : Byte) (buffer : CArray Byte size) (position : Nat) :
    Option (Option (List Byte) × CArray Byte size × Nat) :=
  if 0#8 ∈ buffer.cells.drop position then
    let text := cString (buffer.cells.drop position)
    let body := skip delimiter text
    let token := word delimiter body
    let finish := position + (text.length - body.length) + token.length
    if body = [] then some (none, buffer, position + text.length)
    else if token = body then some (some token, buffer, finish)
    else (buffer.set? finish 0#8).map fun cut => (some token, cut, finish + 1)
  else none

/-- The string behind a position has these tokens. -/
structure Scans (delimiter : Byte) (buffer : CArray Byte size) (position : Nat)
    (found : List (List Byte)) : Prop where
  terminated : 0#8 ∈ buffer.cells.drop position
  tokens : tokens delimiter (cString (buffer.cells.drop position)) = found

theorem scans_of_drop {buffer : CArray Byte size} {position : Nat}
    {text after : List Byte} (plain : 0#8 ∉ text)
    (behind : buffer.cells.drop position = text ++ 0#8 :: after) :
    Scans delimiter buffer position (tokens delimiter text) where
  terminated := by simp [behind]
  tokens := by rw [behind, cString_append_zero plain]

variable {buffer : CArray Byte size} {position : Nat}

theorem scans_of_cString? {text : List Byte} {found : List (List Byte)}
    (holds : buffer.cString? = some text) (split : Strtok.tokens delimiter text = found) :
    Scans delimiter buffer 0 found := by
  obtain ⟨plain, rest, cells⟩ := CArray.cString?_eq_some.mp holds
  rw [← split]
  exact scans_of_drop plain cells

theorem scans_end {text after : List Byte}
    (behind : buffer.cells.drop position = text ++ 0#8 :: after) :
    Scans delimiter buffer (position + text.length) [] := by
  have rest : buffer.cells.drop (position + text.length) =
      [] ++ 0#8 :: after := by
    rw [← List.drop_drop, behind]
    simp
  exact scans_of_drop (by simp) rest

/-- Without a further token the call returns NULL, and so does the next one. -/
theorem strtok_nil (scans : Scans delimiter buffer position []) :
    ∃ stopped, strtok delimiter buffer position = some (none, buffer, stopped) ∧
      Scans delimiter buffer stopped [] := by
  obtain ⟨terminated, noTokens⟩ := scans
  obtain ⟨after, behind⟩ := exists_cString_append terminated
  have done : skip delimiter (cString (buffer.cells.drop position)) = [] := by
    by_contra more
    rcases tokens_of_more more with ⟨_, found⟩ | ⟨_, _, found⟩ <;>
      simp [noTokens] at found
  refine ⟨position + (cString (buffer.cells.drop position)).length, ?_,
    scans_end behind⟩
  simp [strtok, terminated, done]

/-- The call returns the first token; the next call goes on behind it. -/
theorem strtok_cons {first : List Byte} {found : List (List Byte)}
    (scans : Scans delimiter buffer position (first :: found)) :
    ∃ cut stopped, strtok delimiter buffer position =
        some (some first, cut, stopped) ∧
      Scans delimiter cut stopped found := by
  obtain ⟨terminated, holds⟩ := scans
  obtain ⟨after, behind⟩ := exists_cString_append terminated
  have plain := zero_notMem_cString (buffer.cells.drop position)
  simp only [strtok, if_pos terminated]
  generalize cString (buffer.cells.drop position) = text at holds behind plain
  have more : skip delimiter text ≠ [] := by
    intro done
    have none := @tokens_skip delimiter text
    rw [done, holds] at none
    simp at none
  obtain ⟨spaces, split, length⟩ := @skip_split delimiter text
  rcases tokens_of_more more with ⟨whole, found⟩ | ⟨rest, cutAt, found⟩
  · rw [holds] at found
    obtain ⟨rfl, rfl⟩ := List.cons.inj found
    have shorter := congrArg List.length split
    rw [List.length_append] at shorter
    have finish : position + (text.length - (skip delimiter text).length) +
        (word delimiter (skip delimiter text)).length =
          position + text.length := by
      rw [whole]
      omega
    refine ⟨buffer, position + text.length, ?_, scans_end behind⟩
    rw [if_neg more, if_pos whole, finish]
  · rw [holds] at found
    obtain ⟨rfl, rfl⟩ := List.cons.inj found
    have cut : word delimiter (skip delimiter text) ≠ skip delimiter text := by
      intro whole
      have longer := congrArg List.length cutAt
      rw [whole, List.length_append] at longer
      simp at longer
    generalize word delimiter (skip delimiter text) = token at cutAt cut
    set finish := position + (text.length - (skip delimiter text).length) +
      token.length with atFinish
    have textSplit : text = (spaces ++ token) ++ delimiter :: rest := by
      rw [List.append_assoc, ← cutAt]
      exact split
    have front : position + (spaces ++ token).length = finish := by
      rw [List.length_append, length, atFinish]
      omega
    have inside : finish < size := by
      have total := congrArg List.length behind
      rw [List.length_drop, buffer.length_cells, textSplit] at total
      simp only [List.length_append, List.length_cons] at total front
      omega
    have behindCut : buffer.cells.drop (finish + 1) = rest ++ 0#8 :: after := by
      rw [← front, Nat.add_assoc, ← List.drop_drop, behind, textSplit,
        List.append_assoc, ← List.drop_drop, List.drop_left]
      simp
    have restPlain : 0#8 ∉ rest := fun member =>
      plain (by rw [textSplit]; simp [member])
    have behindSet : (buffer.cells.set finish 0#8).drop (finish + 1) =
        rest ++ 0#8 :: after := by
      rw [List.drop_set_of_lt (by omega), behindCut]
    refine ⟨⟨buffer.cells.set finish 0#8, by simp [buffer.length_cells]⟩,
      finish + 1, ?_, scans_of_drop restPlain behindSet⟩
    simp [more, cut, CArray.set?, inside]

/-- A call returns the first token there is, and nothing only when there is
none. -/
theorem scans_of_strtok {token : Option (List Byte)} {cut : CArray Byte size}
    {stopped : Nat}
    (returned : strtok delimiter buffer position = some (token, cut, stopped)) :
    ∃ found, Scans delimiter buffer position (token.toList ++ found) ∧
      Scans delimiter cut stopped found ∧ (token = none → found = []) := by
  have terminated : 0#8 ∈ buffer.cells.drop position := by
    by_contra unterminated
    simp [strtok, unterminated] at returned
  have scans : Scans delimiter buffer position
      (tokens delimiter (cString (buffer.cells.drop position))) := ⟨terminated, rfl⟩
  cases split : tokens delimiter (cString (buffer.cells.drop position)) with
  | nil =>
      rw [split] at scans
      obtain ⟨_, result, ended⟩ := strtok_nil scans
      rw [returned] at result
      cases result
      exact ⟨[], scans, ended, fun _ => rfl⟩
  | cons first found =>
      rw [split] at scans
      obtain ⟨_, _, result, behind⟩ := strtok_cons scans
      rw [returned] at result
      cases result
      exact ⟨found, scans, behind, by simp⟩

end Strtok
