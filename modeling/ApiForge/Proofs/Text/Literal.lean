import ApiForge.Proofs.Text.Ascii
import ApiForge.Proofs.Text.Cutting
import ApiForge.Text.Literal
import Mathlib.Algebra.Group.Nat.Defs

/-!
# Reading literals

The escapes of literals are undone by a reader that goes through a text character by character. It needs to know nothing
of what was escaped: a hexadecimal escape ends at its brace, so no character behind it can be taken for a digit.

* `Reader`: the literals that were read so far, and where the reader is. `Reader.run` goes through a text.
* `literals?`: the values of the literals in a text. `literalValue?`: the value of a text that is one literal.
* `literalOf hides`: the literal of a text in which the characters of `hides` are written by their code points. `literal`
  is the one for `hidden`.
* `run_literalChar`: one character is read back. Hence literals are (`literalOf_spec`).
-/

namespace ApiForge.Text

/-! ## The reader -/

/-- The character of an escape of one letter. -/
def shortEscape? : Char → Option Char
  | '"' => some '"'
  | '\\' => some '\\'
  | 'n' => some '\n'
  | 'r' => some '\r'
  | 't' => some '\t'
  | '0' => some (Char.ofNat 0)
  | _ => none

/-- The number that hexadecimal digits denote. -/
def hexValue? (digits : List Char) : Option Nat := digits.foldlM (fun n c => (hexDigit? c).map (n * 16 + ·)) 0

/-- The character with a code point of one to six hexadecimal digits. -/
def codePoint? (digits : List Char) : Option Char :=
  if digits.isEmpty || 6 < digits.length then none
  else (hexValue? digits).bind fun n => if n.isValidChar then some (Char.ofNat n) else none

/-- Where a reader is: outside of literals, inside of one, or behind the backslash, the letter or the opening brace of
an escape. -/
inductive Mode where
  | outside
  | inside
  | escape
  | letter
  | brace (digits : List Char)

/-- A reader of source text, with the literals that are finished and the characters of the one that is not. -/
structure Reader where
  found : List String := []
  word : List Char := []
  mode : Mode := .outside

namespace Reader

/-- The reader behind a further character of a literal. -/
def push (r : Reader) (c : Char) : Reader := { r with word := r.word ++ [c], mode := .inside }

/-- The reader behind a literal. -/
def close (r : Reader) : Reader := { found := r.found ++ [String.ofList r.word] }

/-- Reads a character. -/
def step (r : Reader) (c : Char) : Option Reader :=
  match r.mode with
  | .outside => some (if c = '"' then { r with mode := .inside } else r)
  | .inside =>
    if c = '"' then some r.close
    else if c = '\\' then some { r with mode := .escape }
    else some (r.push c)
  | .escape => if c = 'u' then some { r with mode := .letter } else (shortEscape? c).map r.push
  | .letter => if c = '\x7b' then some { r with mode := .brace [] } else none
  | .brace digits =>
    if c = '\x7d' then (codePoint? digits).map r.push
    else some { r with mode := .brace (digits ++ [c]) }

/-- Reads a text. -/
def run (r : Reader) (cs : List Char) : Option Reader := cs.foldlM step r

theorem run_nil (r : Reader) : r.run [] = some r := rfl

theorem run_cons (r : Reader) (c : Char) (cs : List Char) : r.run (c :: cs) = (r.step c).bind (·.run cs) := rfl

theorem run_append (r : Reader) (cs ds : List Char) : r.run (cs ++ ds) = (r.run cs).bind (·.run ds) :=
  List.foldlM_append

end Reader

/-- The values of the literals in a text, in order. -/
def literals? (text : String) : Option (List String) :=
  match ({} : Reader).run text.toList with
  | some ⟨found, _, .outside⟩ => some found
  | _ => none

/-- The characters that stand between the quotes of a literal, without escapes. An open quote is not allowed there. -/
def unescape? (body : List Char) : Option (List Char) :=
  match ({ mode := .inside } : Reader).run body with
  | some ⟨[], word, .inside⟩ => some word
  | _ => none

/-- The value of a text that is one literal. -/
def literalValue? (text : String) : Option String :=
  match text.toList with
  | '"' :: cs => ((beforeTrail? ['"'] cs).bind unescape?).map String.ofList
  | _ => none

/-- Whether a text has a quote without a backslash before it that escapes it. -/
def hasOpenQuote : List Char → Bool
  | [] => false
  | '\\' :: _ :: cs => hasOpenQuote cs
  | c :: cs => c == '"' || hasOpenQuote cs

/-! ## Code points -/

theorem hexDigit?_hexChar {n : Nat} (h : n < 16) : hexDigit? (hexChar n) = some n := by
  have hall : ∀ n : Fin 16, hexDigit? (hexChar n) = some n.val := by decide
  exact hall ⟨n, h⟩

theorem alnum_hexChar {n : Nat} (h : n < 16) : isAlnumAscii (hexChar n) = true := by
  have hall : ∀ n : Fin 16, isAlnumAscii (hexChar n) = true := by decide
  exact hall ⟨n, h⟩

theorem alnum_of_mem_hexDigits {fuel n : Nat} {c : Char} (h : c ∈ hexDigits fuel n) : isAlnumAscii c = true := by
  induction fuel generalizing n with
  | zero => cases h
  | succ fuel ih =>
    rw [hexDigits] at h
    split at h
    · rename_i hn
      rw [List.mem_singleton.1 h]
      exact alnum_hexChar hn
    · rcases List.mem_append.1 h with h | h
      · exact ih h
      · rw [List.mem_singleton.1 h]
        exact alnum_hexChar (Nat.mod_lt n (by decide))

theorem hexValue?_hexDigits {fuel n : Nat} (h : n < 16 ^ fuel) : hexValue? (hexDigits fuel n) = some n := by
  induction fuel generalizing n with
  | zero =>
    obtain rfl : n = 0 := by simpa using h
    rfl
  | succ fuel ih =>
    rw [hexDigits]
    split
    · rename_i hn
      simp [hexValue?, hexDigit?_hexChar hn]
    · have hhigh : n / 16 < 16 ^ fuel := by
        rw [Nat.div_lt_iff_lt_mul (by decide)]
        rwa [Nat.pow_succ] at h
      have hvalue := ih hhigh
      rw [hexValue?] at hvalue
      rw [hexValue?, List.foldlM_append, hvalue]
      simp [hexDigit?_hexChar (Nat.mod_lt n (by decide : 16 > 0))]
      omega

theorem hexDigits_ne_nil (fuel n : Nat) : hexDigits (fuel + 1) n ≠ [] := by
  rw [hexDigits]
  split
  · exact List.cons_ne_nil _ _
  · exact List.append_ne_nil_of_right_ne_nil _ (List.cons_ne_nil _ _)

theorem length_hexDigits_le {fuel n k : Nat} (hk : 0 < k) (h : n < 16 ^ k) : (hexDigits fuel n).length ≤ k := by
  induction fuel generalizing n k with
  | zero => exact Nat.zero_le k
  | succ fuel ih =>
    rw [hexDigits]
    split
    · exact hk
    · rename_i hn
      obtain ⟨k, rfl⟩ := Nat.exists_eq_add_one.2 hk
      have hpos : 0 < k := by
        refine Nat.pos_of_ne_zero fun hzero => hn ?_
        rwa [hzero, Nat.zero_add, Nat.pow_one] at h
      have hhigh : n / 16 < 16 ^ k := by
        rw [Nat.div_lt_iff_lt_mul (by decide)]
        rwa [Nat.pow_succ] at h
      rw [List.length_append, List.length_singleton]
      exact Nat.succ_le_succ (ih hpos hhigh)

/-- Code points have at most six digits. -/
theorem toNat_lt (c : Char) : c.toNat < 16 ^ 6 := by
  rcases c.valid with h | ⟨-, h⟩
  · exact Nat.lt_trans h (by decide)
  · exact Nat.lt_trans h (by decide)

/-- **A code point is read back** from its digits. -/
theorem codePoint?_hexDigits (c : Char) : codePoint? (hexDigits 8 c.toNat) = some c := by
  have hempty : (hexDigits 8 c.toNat).isEmpty = false := by simpa using hexDigits_ne_nil 7 c.toNat
  have hlength : ¬6 < (hexDigits 8 c.toNat).length := by
    have hle : (hexDigits 8 c.toNat).length ≤ 6 := length_hexDigits_le (by decide) (toNat_lt c)
    omega
  have hvalue : hexValue? (hexDigits 8 c.toNat) = some c.toNat :=
    hexValue?_hexDigits (Nat.lt_trans (toNat_lt c) (by decide))
  have hvalid : c.toNat.isValidChar := c.valid
  rw [codePoint?, hempty, decide_eq_false hlength, Bool.or_false, if_neg Bool.false_ne_true, hvalue, Option.bind_some,
    if_pos hvalid, Char.ofNat_toNat]

/-! ## Writing -/

section Literals

variable (hides : Char → Bool)

/-- One character inside a literal, where the characters of `hides` are written by their code points. -/
def literalCharOf (c : Char) : List Char :=
  if c == '"' then ['\\', '"']
  else if c == '\\' then ['\\', '\\']
  else if c == '\n' then ['\\', 'n']
  else if c == '\r' then ['\\', 'r']
  else if c == '\t' then ['\\', 't']
  else if c.toNat == 0 then ['\\', '0']
  else if hides c then '\\' :: 'u' :: '\x7b' :: (hexDigits 8 c.toNat ++ ['\x7d'])
  else [c]

/-- The characters between the quotes of a literal. -/
def literalBody (s : String) : List Char := s.toList.flatMap (literalCharOf hides)

/-- The literal of a text, where the characters of `hides` are written by their code points. -/
def literalOf (s : String) : String := String.ofList ('"' :: literalBody hides s ++ ['"'])

theorem literal_eq (s : String) : literal s = literalOf Text.hidden s := rfl

/-- How a character is written: with a letter behind a backslash, by its code point, or as it is. -/
theorem literalCharOf_cases (c : Char) :
    (∃ e, literalCharOf hides c = ['\\', e] ∧ e ≠ 'u' ∧ e ≠ '\n' ∧ e ≠ '\r' ∧ shortEscape? e = some c) ∨
    literalCharOf hides c = '\\' :: 'u' :: '\x7b' :: (hexDigits 8 c.toNat ++ ['\x7d']) ∨
    literalCharOf hides c = [c] ∧ c ≠ '"' ∧ c ≠ '\\' ∧ c ≠ '\n' ∧ c ≠ '\r' := by
  unfold literalCharOf
  split
  · rename_i h
    exact .inl ⟨'"', rfl, by decide, by decide, by decide, by rw [beq_iff_eq.1 h]; rfl⟩
  split
  · rename_i h
    exact .inl ⟨'\\', rfl, by decide, by decide, by decide, by rw [beq_iff_eq.1 h]; rfl⟩
  split
  · rename_i h
    exact .inl ⟨'n', rfl, by decide, by decide, by decide, by rw [beq_iff_eq.1 h]; rfl⟩
  split
  · rename_i h
    exact .inl ⟨'r', rfl, by decide, by decide, by decide, by rw [beq_iff_eq.1 h]; rfl⟩
  split
  · rename_i h
    exact .inl ⟨'t', rfl, by decide, by decide, by decide, by rw [beq_iff_eq.1 h]; rfl⟩
  split
  · rename_i h
    refine .inl ⟨'0', rfl, by decide, by decide, by decide, ?_⟩
    rw [← Char.ofNat_toNat c, beq_iff_eq.1 h]
    rfl
  split
  · exact .inr (.inl rfl)
  · rename_i hquote hslash hnewline hreturn _ _ _
    exact .inr (.inr ⟨rfl, by simpa using hquote, by simpa using hslash, by simpa using hnewline, by simpa using hreturn⟩)

/-- A character inside a literal brings no line break. -/
theorem break_not_mem_literalCharOf (c : Char) : '\n' ∉ literalCharOf hides c ∧ '\r' ∉ literalCharOf hides c := by
  rcases literalCharOf_cases hides c with ⟨e, h, -, hnewline, hreturn, -⟩ | h | ⟨h, -, -, hnewline, hreturn⟩
  · rw [h]
    simp [Ne.symm hnewline, Ne.symm hreturn]
  · have hdigits (b : Char) (hb : isAlnumAscii b = false) : b ∉ hexDigits 8 c.toNat := by
      intro hmem
      rw [alnum_of_mem_hexDigits hmem] at hb
      cases hb
    rw [h]
    simp [hdigits '\n' (by decide), hdigits '\r' (by decide)]
  · rw [h]
    simp [Ne.symm hnewline, Ne.symm hreturn]

/-- Characters that are neither quotes nor backslashes leave a text without open quotes. -/
theorem hasOpenQuote_append {cs : List Char} (h : ∀ c ∈ cs, c ≠ '"' ∧ c ≠ '\\') (rest : List Char) :
    hasOpenQuote (cs ++ rest) = hasOpenQuote rest := by
  induction cs with
  | nil => rfl
  | cons c cs ih =>
    obtain ⟨⟨hquote, hslash⟩, hcs⟩ := List.forall_mem_cons.1 h
    have hstep : hasOpenQuote (c :: (cs ++ rest)) = (c == '"' || hasOpenQuote (cs ++ rest)) := by
      rw [hasOpenQuote]
      rintro _ _ rfl
      exact absurd rfl hslash
    rw [List.cons_append, hstep, ih hcs]
    simp [hquote]

/-- A character inside a literal brings no open quote. -/
theorem hasOpenQuote_literalCharOf (c : Char) (rest : List Char) :
    hasOpenQuote (literalCharOf hides c ++ rest) = hasOpenQuote rest := by
  rcases literalCharOf_cases hides c with ⟨e, h, -⟩ | h | ⟨h, hquote, hslash, -⟩
  · rw [h]
    rfl
  · have hdigits : ∀ x ∈ '\x7b' :: (hexDigits 8 c.toNat ++ ['\x7d']), x ≠ '"' ∧ x ≠ '\\' := by
      intro x hx
      rcases List.mem_cons.1 hx with rfl | hx
      · decide
      · rcases List.mem_append.1 hx with hx | hx
        · have halnum := alnum_of_mem_hexDigits hx
          constructor
          · rintro rfl
            revert halnum
            decide
          · rintro rfl
            revert halnum
            decide
        · rw [List.mem_singleton.1 hx]
          decide
    rw [h]
    exact hasOpenQuote_append hdigits rest
  · rw [h]
    exact hasOpenQuote_append (List.forall_mem_singleton.2 ⟨hquote, hslash⟩) rest

/-! ## Reading back -/

/-- Digits are collected. -/
theorem run_digits {digits : List Char} (h : ∀ c ∈ digits, isAlnumAscii c = true) (r : Reader) (before : List Char) :
    Reader.run { r with mode := .brace before } digits = some { r with mode := .brace (before ++ digits) } := by
  induction digits generalizing before with
  | nil => rw [Reader.run_nil, List.append_nil]
  | cons c digits ih =>
    obtain ⟨hc, hdigits⟩ := List.forall_mem_cons.1 h
    have hne : c ≠ '\x7d' := by
      rintro rfl
      revert hc
      decide
    rw [Reader.run_cons, Reader.step]
    simp only [if_neg hne, Option.bind_some]
    rw [ih hdigits, List.append_assoc, List.singleton_append]

/-- **A character is read back**, whatever was read before it. -/
theorem run_literalCharOf (c : Char) (r : Reader) (hr : r.mode = .inside) :
    r.run (literalCharOf hides c) = some (r.push c) := by
  obtain ⟨found, word, mode⟩ := r
  obtain rfl : mode = .inside := hr
  rcases literalCharOf_cases hides c with ⟨e, h, hletter, -, -, hescape⟩ | h | ⟨h, hquote, hslash, -⟩
  · rw [h]
    simp [Reader.run_cons, Reader.run_nil, Reader.step, hletter, hescape, Reader.push]
  · -- The brace that ends the escape is no digit, so the reader has all digits when it comes to the brace.
    have hdigits : Reader.run ⟨found, word, .brace []⟩ (hexDigits 8 c.toNat) =
        some ⟨found, word, .brace (hexDigits 8 c.toNat)⟩ :=
      run_digits (fun _ => alnum_of_mem_hexDigits) ⟨found, word, .inside⟩ []
    have hopen : Reader.run ⟨found, word, .inside⟩ ('\\' :: 'u' :: '\x7b' :: (hexDigits 8 c.toNat ++ ['\x7d'])) =
        Reader.run ⟨found, word, .brace []⟩ (hexDigits 8 c.toNat ++ ['\x7d']) := rfl
    rw [h, hopen, Reader.run_append, hdigits]
    simp [Reader.run_cons, Reader.run_nil, Reader.step, codePoint?_hexDigits, Reader.push]
  · rw [h]
    simp [Reader.run_cons, Reader.run_nil, Reader.step, hquote, hslash, Reader.push]

/-- The characters of a text are read back one after another. -/
theorem run_literalChars (cs : List Char) (found : List String) (word : List Char) :
    Reader.run ⟨found, word, .inside⟩ (cs.flatMap (literalCharOf hides)) = some ⟨found, word ++ cs, .inside⟩ := by
  induction cs generalizing word with
  | nil => rw [List.flatMap_nil, Reader.run_nil, List.append_nil]
  | cons c cs ih =>
    have hpush : Reader.push ⟨found, word, .inside⟩ c = ⟨found, word ++ [c], .inside⟩ := rfl
    rw [List.flatMap_cons, Reader.run_append, run_literalCharOf hides c _ rfl, Option.bind_some, hpush, ih,
      List.append_assoc, List.singleton_append]

/-- **A literal is read back** between other literals. -/
theorem run_literalOf (s : String) (found : List String) :
    Reader.run ⟨found, [], .outside⟩ (literalOf hides s).toList = some ⟨found ++ [s], [], .outside⟩ := by
  have hopen (cs : List Char) : Reader.run ⟨found, [], .outside⟩ ('"' :: cs) = Reader.run ⟨found, [], .inside⟩ cs := rfl
  rw [literalOf, String.toList_ofList, List.cons_append, hopen, Reader.run_append, literalBody, run_literalChars,
    Option.bind_some, List.nil_append, Reader.run_cons, Reader.step]
  simp [Reader.run_nil, Reader.close]

/-- **Literals are read back.** A literal begins and ends with a quote. Between the quotes there is no open quote and no
line break, and the value of the literal is the text. -/
theorem literalOf_spec (s : String) : (literalOf hides s).toList = '"' :: (literalBody hides s ++ ['"']) ∧
    hasOpenQuote (literalBody hides s) = false ∧ '\n' ∉ literalBody hides s ∧ '\r' ∉ literalBody hides s ∧
    literalValue? (literalOf hides s) = some s := by
  have hchars : (literalOf hides s).toList = '"' :: (literalBody hides s ++ ['"']) := String.toList_ofList
  have hquotes (cs : List Char) : hasOpenQuote (cs.flatMap (literalCharOf hides)) = false := by
    induction cs with
    | nil => rfl
    | cons c cs ih => rw [List.flatMap_cons, hasOpenQuote_literalCharOf, ih]
  have hbody : unescape? (literalBody hides s) = some s.toList := by
    rw [unescape?, literalBody, run_literalChars, List.nil_append]
  refine ⟨hchars, hquotes s.toList, fun hmem => ?_, fun hmem => ?_, ?_⟩
  · obtain ⟨c, -, hc⟩ := List.mem_flatMap.1 hmem
    exact (break_not_mem_literalCharOf hides c).1 hc
  · obtain ⟨c, -, hc⟩ := List.mem_flatMap.1 hmem
    exact (break_not_mem_literalCharOf hides c).2 hc
  · rw [literalValue?, hchars]
    change ((beforeTrail? ['"'] (literalBody hides s ++ ['"'])).bind unescape?).map String.ofList = some s
    rw [beforeTrail?_append, Option.bind_some, hbody, Option.map_some, String.ofList_toList]

end Literals

end ApiForge.Text
