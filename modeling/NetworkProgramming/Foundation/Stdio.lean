import Mathlib.Data.List.DropRight
import NetworkProgramming.Foundation.CArray

/-!
# Files of the standard library

`fgets` stops behind a newline, when the buffer is full or at the end of the
file.  The end is noticed only by a read that runs into it, and `feof` says
whether one has.  A stream that is open for update has one position, at which it is
read and written.
-/

namespace Stdio

open MachineInt

/-- What one `fgets` takes from the file: the characters, the rest, and whether
it ran into the end. -/
structure Line where
  taken : List Byte
  rest : List Byte
  ended : Bool
deriving DecidableEq

/-- At most `limit` characters, none behind a newline. -/
def takeLine : Nat → List Byte → Line
  | 0, file => ⟨[], file, false⟩
  | _ + 1, [] => ⟨[], [], true⟩
  | limit + 1, character :: file =>
      if character = ascii '\n' then ⟨[character], file, false⟩
      else
        let line := takeLine limit file
        { line with taken := character :: line.taken }

/-- Why `takeLine` stopped. -/
inductive Stops (limit : Nat) (file : List Byte) : Line → Prop where
  | atEnd (plain : ascii '\n' ∉ file) (short : file.length < limit) :
      Stops limit file ⟨file, [], true⟩
  | atNewline (front rest : List Byte) (plain : ascii '\n' ∉ front)
      (split : file = (front ++ [ascii '\n']) ++ rest) (short : front.length < limit) :
      Stops limit file ⟨front ++ [ascii '\n'], rest, false⟩
  | full (taken rest : List Byte) (plain : ascii '\n' ∉ taken)
      (split : file = taken ++ rest) (length : taken.length = limit) :
      Stops limit file ⟨taken, rest, false⟩

theorem stops_takeLine (limit : Nat) (file : List Byte) :
    Stops limit file (takeLine limit file) := by
  induction limit generalizing file with
  | zero => exact .full [] file (by simp) rfl rfl
  | succ limit induction =>
      cases file with
      | nil => exact .atEnd (by simp) (by simp)
      | cons character file =>
          rw [takeLine]
          by_cases newline : character = ascii '\n'
          · rw [if_pos newline, newline]
            exact .atNewline [] file (by simp) rfl (by simp)
          · rw [if_neg newline]
            have stops := induction file
            generalize takeLine limit file = line at stops
            cases stops with
            | atEnd plain short =>
                exact .atEnd (by simpa [Ne.symm newline] using plain) (by simpa using short)
            | atNewline front rest plain split short =>
                exact .atNewline (character :: front) rest
                  (by simpa [Ne.symm newline] using plain) (by simp [split])
                  (by simpa using short)
            | full taken rest plain split length =>
                exact .full (character :: taken) rest
                  (by simpa [Ne.symm newline] using plain) (by simp [split])
                  (by simpa using length)

theorem takeLine_split (limit : Nat) (file : List Byte) :
    (takeLine limit file).taken ++ (takeLine limit file).rest = file := by
  have stops := stops_takeLine limit file
  generalize takeLine limit file = line at stops
  cases stops with
  | atEnd plain short => exact List.append_nil _
  | atNewline front rest plain split short => exact split.symm
  | full taken rest plain split length => exact split.symm

theorem length_takeLine_le (limit : Nat) (file : List Byte) :
    (takeLine limit file).taken.length ≤ limit := by
  have stops := stops_takeLine limit file
  generalize takeLine limit file = line at stops
  cases stops with
  | atEnd plain short => exact short.le
  | atNewline front rest plain split short => simpa using short
  | full taken rest plain split length => exact length.le

/-- An open file: what has not been read, and the indicator that `feof`
tests. -/
structure File where
  rest : List Byte
  feof : Bool
deriving DecidableEq

def fopen (content : List Byte) : File := ⟨content, false⟩

/-- What `fgets` leaves, and whether it returned the buffer and not `NULL`. -/
structure Gets (size : Nat) where
  returned : Bool
  buf : CArray Byte size
  fp : File

/-- `fgets(buf, size, fp)`: at the end of the file the buffer stays as it is. -/
def fgets {size : Nat} (buf : CArray Byte size) (fp : File) : Gets size :=
  let line := takeLine (size - 1) fp.rest
  let after : File := ⟨line.rest, fp.feof || line.ended⟩
  if line.ended ∧ line.taken = [] then ⟨false, buf, after⟩
  else ⟨true, buf.fill (line.taken ++ [0#8]), after⟩

/-- How much there is to do before `feof`. -/
def File.remaining (fp : File) : Nat :=
  2 * fp.rest.length + if fp.feof then 0 else 1

theorem remaining_fgets_lt {size : Nat} (room : 1 < size) {buf : CArray Byte size}
    {fp : File} (more : fp.feof = false) :
    (fgets buf fp).fp.remaining < fp.remaining := by
  have after : (fgets buf fp).fp =
      ⟨(takeLine (size - 1) fp.rest).rest, (takeLine (size - 1) fp.rest).ended⟩ := by
    unfold fgets
    simp only [more, Bool.false_or]
    split <;> rfl
  have stops := stops_takeLine (size - 1) fp.rest
  rw [after, File.remaining, File.remaining, more]
  generalize takeLine (size - 1) fp.rest = line at stops
  cases stops with
  | atEnd plain short =>
      rw [List.length_nil, if_pos rfl, if_neg Bool.false_ne_true]
      omega
  | atNewline front rest plain split short =>
      simp only [split, List.length_append, List.length_singleton]
      omega
  | full taken rest plain split length =>
      simp only [split, List.length_append]
      omega

theorem fgets_line {size : Nat} (room : 0 < size) (buf : CArray Byte size) {fp : File}
    (typed : (takeLine (size - 1) fp.rest).taken ≠ []) :
    (fgets buf fp).buf.cString? = some (cString (takeLine (size - 1) fp.rest).taken) ∧
      (fgets buf fp).fp.rest = (takeLine (size - 1) fp.rest).rest := by
  have short := length_takeLine_le (size - 1) fp.rest
  rw [fgets, if_neg (by simp [typed])]
  refine ⟨?_, rfl⟩
  have fits : ((takeLine (size - 1) fp.rest).taken ++ [0#8]).length ≤ size := by
    rw [List.length_append, List.length_singleton]
    omega
  rw [CArray.cString?_fill _ fits (by simp), cString_concat_zero]

/-! ## The lines of a text -/

/-- What so many reads take, as far as none runs into the end. -/
def linesWithin (limit : Nat) : Nat → List Byte → List (List Byte)
  | 0, _ => []
  | turns + 1, text =>
      let line := takeLine limit text
      if line.ended then [] else line.taken :: linesWithin limit turns line.rest

/-- What the reads take of a text; what stands behind the last newline is still to be
ended, unless it fills a read. -/
def lines (limit : Nat) (text : List Byte) : List (List Byte) :=
  linesWithin limit text.length text

theorem takeLine_nonempty {limit : Nat} {text : List Byte} (positive : 0 < limit)
    (more : (takeLine limit text).ended = false) : (takeLine limit text).taken ≠ [] := by
  have stops := stops_takeLine limit text
  generalize takeLine limit text = line at stops more
  cases stops with
  | atEnd plain short => cases more
  | atNewline front rest plain split short => simp
  | full taken rest plain split length =>
      rintro rfl
      rw [← length] at positive
      exact absurd positive (Nat.lt_irrefl _)

theorem length_rest_takeLine_lt {limit : Nat} {text : List Byte} (positive : 0 < limit)
    (more : (takeLine limit text).ended = false) :
    (takeLine limit text).rest.length < text.length := by
  have split := congrArg List.length (takeLine_split limit text)
  have taken := List.length_pos_iff.mpr (takeLine_nonempty positive more)
  rw [List.length_append] at split
  omega

theorem linesWithin_enough {limit turns : Nat} {text : List Byte} (positive : 0 < limit)
    (enough : text.length ≤ turns) : linesWithin limit turns text = lines limit text := by
  have same (others : Nat) (alsoEnough : text.length ≤ others) :
      linesWithin limit turns text = linesWithin limit others text := by
    induction turns generalizing others text with
    | zero =>
        have none : text = [] := List.length_eq_zero_iff.mp (Nat.le_zero.mp enough)
        subst none
        obtain ⟨limit, rfl⟩ := Nat.exists_eq_add_one_of_ne_zero positive.ne'
        cases others <;> rfl
    | succ turns induction =>
        cases others with
        | zero =>
            have none : text = [] := List.length_eq_zero_iff.mp (Nat.le_zero.mp alsoEnough)
            subst none
            obtain ⟨limit, rfl⟩ := Nat.exists_eq_add_one_of_ne_zero positive.ne'
            rfl
        | succ others =>
            simp only [linesWithin]
            by_cases ended : (takeLine limit text).ended = true
            · rw [if_pos ended, if_pos ended]
            · have shorter := length_rest_takeLine_lt positive (by simpa using ended)
              rw [if_neg ended, if_neg ended,
                induction (by omega) others (by omega)]
  exact same _ (Nat.le_refl _)

theorem lines_line {limit : Nat} {text : List Byte} (positive : 0 < limit)
    (more : (takeLine limit text).ended = false) :
    lines limit text =
      (takeLine limit text).taken :: lines limit (takeLine limit text).rest := by
  have shorter := length_rest_takeLine_lt positive more
  obtain ⟨turns, length⟩ : ∃ turns, text.length = turns + 1 :=
    Nat.exists_eq_add_one_of_ne_zero (by omega)
  rw [lines, length, linesWithin, if_neg (by simp [more]),
    linesWithin_enough positive (by omega)]

theorem lines_ended {limit : Nat} {text : List Byte}
    (ended : (takeLine limit text).ended = true) : lines limit text = [] := by
  rw [lines]
  cases text.length with
  | zero => rfl
  | succ turns => rw [linesWithin, if_pos ended]

/-! ## The text behind the last mark -/

section behindLast

variable {α : Type*} [DecidableEq α] {mark : α}

def behindLast (mark : α) (text : List α) : List α := text.rtakeWhile (· ≠ mark)

theorem behindLast_of_notMem {text : List α} (plain : mark ∉ text) :
    behindLast mark text = text := by
  refine List.rtakeWhile_eq_self_iff.mpr fun character member => ?_
  have : character ≠ mark := fun equality => plain (equality ▸ member)
  simpa using this

theorem behindLast_concat_mark (front : List α) : behindLast mark (front ++ [mark]) = [] :=
  List.rtakeWhile_concat_neg _ _ _ (by simp)

theorem behindLast_append (front text : List α) :
    behindLast mark (front ++ text) =
      if mark ∈ text then behindLast mark text else behindLast mark front ++ text := by
  induction text using List.reverseRecOn with
  | nil => simp
  | append_singleton text last induction =>
      rw [← List.append_assoc]
      by_cases isMark : last = mark
      · rw [isMark, behindLast_concat_mark, behindLast_concat_mark, if_pos (by simp)]
      · have keeps (earlier : List α) :
            behindLast mark (earlier ++ [last]) = behindLast mark earlier ++ [last] :=
          List.rtakeWhile_concat_pos _ _ _ (by simpa using isMark)
        have other : mark ≠ last := Ne.symm isMark
        rw [keeps, keeps, induction]
        by_cases inside : mark ∈ text
        · simp [inside]
        · simp [inside, other]

end behindLast

/-- The text behind the last newline. -/
def lastLine (text : List Byte) : List Byte := behindLast (ascii '\n') text

@[simp] theorem lastLine_nil : lastLine [] = [] := rfl

/-! ## What a read says about the last line -/

theorem Stops.ended {limit : Nat} {file taken rest : List Byte}
    (stops : Stops limit file ⟨taken, rest, true⟩) :
    taken = file ∧ rest = [] ∧ file.length < limit ∧ lastLine file = file := by
  cases stops with
  | atEnd plain short => exact ⟨rfl, rfl, short, behindLast_of_notMem plain⟩

/-- A read that did not notice the end took a line or a full buffer, and
neither changes by how much the text behind the last newline exceeds full
buffers. -/
theorem Stops.continued {limit : Nat} (positive : 0 < limit)
    {file taken rest : List Byte} (stops : Stops limit file ⟨taken, rest, false⟩) :
    file = taken ++ rest ∧ taken ≠ [] ∧ taken.length ≤ limit ∧
      (limit ∣ (lastLine file).length ↔ limit ∣ (lastLine rest).length) := by
  cases stops with
  | atNewline front rest plain split short =>
      refine ⟨split, by simp, by simpa using short, ?_⟩
      rw [split, lastLine, lastLine, behindLast_append, behindLast_concat_mark]
      split
      · rfl
      · rename_i none
        rw [behindLast_of_notMem none, List.nil_append]
  | full taken rest plain split length =>
      refine ⟨split, List.ne_nil_of_length_pos (by omega), by omega, ?_⟩
      rw [split, lastLine, lastLine, behindLast_append, behindLast_of_notMem plain]
      split
      · rfl
      · rename_i none
        rw [behindLast_of_notMem none, List.length_append, length,
          Nat.dvd_add_right (dvd_refl limit)]

/-! ## A stream that is read and written -/

/-- A stream open for update. -/
structure UpdateStream where
  content : List Byte
  position : Nat
  inside : position ≤ content.length
deriving DecidableEq

namespace UpdateStream

/-- `fopen(path, "wb+")`: the file is made empty. -/
def truncated : UpdateStream := ⟨[], 0, by simp⟩

/-- `fwrite` of the bytes, over what is at the position. -/
def fwrite (bytes : List Byte) (fp : UpdateStream) : UpdateStream :=
  ⟨fp.content.take fp.position ++ bytes ++ fp.content.drop (fp.position + bytes.length),
    fp.position + bytes.length, by
    have inside := fp.inside
    simp only [List.length_append, List.length_take]
    omega⟩

/-- `fread` of at most this many bytes: what it returns, and the stream behind. -/
def fread (count : Nat) (fp : UpdateStream) : List Byte × UpdateStream :=
  ((fp.content.drop fp.position).take count,
    ⟨fp.content, fp.position + ((fp.content.drop fp.position).take count).length, by
      have inside := fp.inside
      simp only [List.length_take, List.length_drop]
      omega⟩)

/-- How much there is to read. -/
def remaining (fp : UpdateStream) : Nat := fp.content.length - fp.position

/-- The stream behind the last byte of a content. -/
def behind (content : List Byte) : UpdateStream := ⟨content, content.length, by simp⟩

theorem remaining_fwrite_le (bytes : List Byte) (fp : UpdateStream) :
    (fp.fwrite bytes).remaining ≤ fp.remaining := by
  have inside := fp.inside
  simp only [remaining, fwrite, List.length_append, List.length_take, List.length_drop]
  omega

theorem remaining_fread (count : Nat) (fp : UpdateStream) :
    (fp.fread count).2.remaining + (fp.fread count).1.length = fp.remaining := by
  simp only [remaining, fread, List.length_take, List.length_drop]
  omega

theorem fwrite_behind (content bytes : List Byte) :
    (behind content).fwrite bytes = behind (content ++ bytes) := by
  simp [behind, fwrite]

theorem fread_behind (content : List Byte) (count : Nat) :
    (behind content).fread count = ([], behind content) := by
  simp [behind, fread]

end UpdateStream

end Stdio
