import ApiForge.Decimal.Layout

/-!
# The characters of written numbers

Every layout writes a number with digits, points, signs, the mark of an exponent, and the letters of `NaN` and `inf`.

* `numeral_write`: the characters of a binary64 number.
* `numeral_int`: the characters of an integer.
-/

namespace ApiForge.Decimal

/-- Characters of written numbers. -/
def isNumeral (c : Char) : Bool := c.isDigit || "+-.NaNinfe".toList.contains c

theorem isNumeral_of_mem_toDigits {n : Nat} {c : Char} (h : c ∈ Nat.toDigits 10 n) : isNumeral c = true := by
  rw [isNumeral, Nat.isDigit_of_mem_toDigits (by decide) (by decide) h, Bool.true_or]

theorem numeral_shortest (b : Binary) : ∀ c ∈ (shortest b).digits, isNumeral c = true := by
  intro c hc
  have hmem := List.mem_reverse.1 hc
  exact isNumeral_of_mem_toDigits (List.mem_reverse.1 ((List.dropWhile_sublist _).subset hmem))

theorem numeral_zeros (n : Nat) : ∀ c ∈ zeros n, isNumeral c = true := by
  intro c hc
  rw [List.eq_of_mem_replicate hc]
  decide

/-- Digits are written out with zeros and a point. -/
theorem numeral_writeOut (pointZero : Bool) {d : Digits} (h : ∀ c ∈ d.digits, isNumeral c = true) :
    ∀ c ∈ writeOut pointZero d, isNumeral c = true := by
  unfold writeOut
  dsimp only
  split
  · refine List.forall_mem_cons.2 ⟨by decide, List.forall_mem_cons.2 ⟨by decide, ?_⟩⟩
    exact List.forall_mem_append.2 ⟨numeral_zeros _, h⟩
  · split
    · refine List.forall_mem_append.2 ⟨List.forall_mem_append.2 ⟨h, numeral_zeros _⟩, ?_⟩
      split
      · exact List.all_eq_true.1 rfl
      · nofun
    · refine List.forall_mem_append.2 ⟨fun c hc => h c (List.mem_of_mem_take hc), ?_⟩
      exact List.forall_mem_cons.2 ⟨by decide, fun c hc => h c (List.mem_of_mem_drop hc)⟩

theorem numeral_writeScientific (plus : Bool) {d : Digits} (h : ∀ c ∈ d.digits, isNumeral c = true) :
    ∀ c ∈ writeScientific plus d, isNumeral c = true := by
  unfold writeScientific
  dsimp only
  refine List.forall_mem_append.2 ⟨List.forall_mem_append.2 ⟨?_, ?_⟩, fun c hc => isNumeral_of_mem_toDigits hc⟩
  · split
    · exact List.all_eq_true.1 rfl
    · rename_i heq
      exact heq ▸ h
    · rename_i first rest _ heq
      obtain ⟨hfirst, hrest⟩ := List.forall_mem_cons.1 (heq ▸ h)
      exact List.forall_mem_cons.2 ⟨hfirst, List.forall_mem_cons.2 ⟨by decide, hrest⟩⟩
  · split
    · exact List.all_eq_true.1 rfl
    · split <;> exact List.all_eq_true.1 rfl

/-- **A layout writes a number with the characters of numbers.** -/
theorem numeral_write (l : Layout) (x : Float) : ∀ c ∈ (l.write x).toList, isNumeral c = true := by
  unfold Layout.write
  split
  · exact List.all_eq_true.1 rfl
  · split <;> exact List.all_eq_true.1 rfl
  · rename_i negative b _
    dsimp only
    rw [String.toList_ofList]
    have hbody : ∀ c ∈ (if b.mantissa == 0 then (if l.pointZero then ['0', '.', '0'] else ['0'])
        else if l.positional (shortest b).exponent then writeOut l.pointZero (shortest b)
        else writeScientific l.plus (shortest b)), isNumeral c = true := by
      split
      · split <;> exact List.all_eq_true.1 rfl
      · split
        · exact numeral_writeOut _ (numeral_shortest b)
        · exact numeral_writeScientific _ (numeral_shortest b)
    split
    · exact List.forall_mem_cons.2 ⟨by decide, hbody⟩
    · exact hbody

theorem numeral_int (n : Int) : ∀ c ∈ (toString n).toList, isNumeral c = true := by
  intro c hc
  cases n with
  | ofNat m =>
    rw [show toString (Int.ofNat m) = m.repr from rfl, Nat.toList_repr] at hc
    exact isNumeral_of_mem_toDigits hc
  | negSucc m =>
    rw [show toString (Int.negSucc m) = "-" ++ m.succ.repr from rfl, String.toList_append, Nat.toList_repr] at hc
    rcases List.mem_append.1 hc with hc | hc
    · obtain rfl := List.mem_singleton.1 hc
      decide
    · exact isNumeral_of_mem_toDigits hc

end ApiForge.Decimal
