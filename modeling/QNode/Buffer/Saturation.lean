import QNode.Buffer.Bounds
import QNode.Buffer.FromArrayBuffer

/-!
# Bounds out of range

`Uint8Array` takes a bound of any size for the nearest one in range.  The methods here convert with
`JS_ToInt64`, which has 0 for an infinity and drops the high bits of a large number.
-/

open QNode.Engine

namespace QNode.Buffer

/-- A bound has the effect of its integer part clamped to the range of exact integers. -/
def Saturates (heap : Heap) (this : View) (x : JsNumber) (place : Place) : Prop :=
  SameEffect heap this (.ofJsNumber x) (.ofInteger x.saturated) place

/-- What must be left of a Number above the range after the conversion, in a Buffer of `n` bytes. -/
def Place.KeepsLarge (heap : Heap) (n : Nat) (w : Int) : Place → Prop
  | toString _ | slice _ | subarray _ | fill _ => n ≤ max 0 w
  | indexOf | copyTarget | copySource .start => w = 2 ^ 53
  | copySource .stop => n ≤ w ∨ NoBytes heap

/-- What must be left of a Number below the range. -/
def Place.KeepsSmall (heap : Heap) (n : Nat) (w : Int) : Place → Prop
  | toString _ | fill _ => n = 0 ∨ w ≤ 0
  | slice _ | subarray _ => n = 0 ∨ w = 0 ∨ w ≤ -n
  | indexOf | copyTarget | copySource .start => w ≤ 0
  | copySource .stop => w = -2 ^ 53 ∨ NoBytes heap

section

variable {heap : Heap} {n : Nat}

theorem sameBound_large (hn : n < 2 ^ 31) (w : Int) (place : Place) :
    SameBound heap n w (2 ^ 53) place ↔ place.KeepsLarge heap n w := by
  have hlow : clampLow (2 ^ 53) = 2 ^ 53 := rfl
  have hhigh : clampHigh (2 ^ 53) n = n := if_pos (by omega)
  have hend : fromEnd (2 ^ 53) n = 2 ^ 53 := rfl
  cases place with
  | toString bound | fill bound =>
    cases bound with
    | start =>
      rw [SameBound, hlow, SameStart, clampLow_eq_max]
      show _ ↔ n ≤ max 0 w
      omega
    | stop =>
      rw [SameBound, hhigh, SameStop, clampHigh_eq_min]
      show _ ↔ n ≤ max 0 w
      omega
  | slice bound | subarray bound =>
    cases bound with
    | start =>
      rw [SameBound, hend, hlow, SameStart, clampLow_eq_max, fromEnd]
      show _ ↔ n ≤ max 0 w
      split <;> omega
    | stop =>
      rw [SameBound, hend, hhigh, SameStop, clampHigh_eq_min, fromEnd]
      show _ ↔ n ≤ max 0 w
      split <;> omega
  | indexOf | copyTarget =>
    rw [SameBound, hlow, clampLow_eq_max]
    show _ ↔ w = 2 ^ 53
    omega
  | copySource bound =>
    cases bound with
    | start =>
      rw [SameBound, hlow, clampLow_eq_max]
      show _ ↔ w = 2 ^ 53
      omega
    | stop =>
      rw [SameBound, hhigh, clampHigh_eq_min]
      show _ ↔ n ≤ w ∨ NoBytes heap
      refine or_congr_left ?_
      omega

theorem sameBound_small (hn : n < 2 ^ 31) {w : Int} (place : Place) :
    SameBound heap n w (-2 ^ 53) place ↔ place.KeepsSmall heap n w := by
  have hlow : clampLow (-2 ^ 53) = 0 := rfl
  have hhigh : clampHigh (-2 ^ 53) n = -2 ^ 53 := if_neg (by omega)
  have hend : fromEnd (-2 ^ 53) n = n - 2 ^ 53 := by
    rw [fromEnd, if_pos (by decide)]
    omega
  have hstart : clampLow (n - 2 ^ 53 : Int) = 0 := if_pos (by omega)
  have hstop : clampHigh (n - 2 ^ 53) n = n - 2 ^ 53 := if_neg (by omega)
  cases place with
  | toString bound | fill bound =>
    cases bound with
    | start =>
      rw [SameBound, hlow, SameStart, clampLow_eq_max]
      show _ ↔ n = 0 ∨ w ≤ 0
      omega
    | stop =>
      rw [SameBound, hhigh, SameStop, clampHigh_eq_min]
      show _ ↔ n = 0 ∨ w ≤ 0
      omega
  | slice bound | subarray bound =>
    cases bound with
    | start =>
      rw [SameBound, hend, hstart, SameStart, clampLow_eq_max, fromEnd]
      show _ ↔ n = 0 ∨ w = 0 ∨ w ≤ -n
      split <;> omega
    | stop =>
      rw [SameBound, hend, hstop, SameStop, clampHigh_eq_min, fromEnd]
      show _ ↔ n = 0 ∨ w = 0 ∨ w ≤ -n
      split <;> omega
  | indexOf | copyTarget =>
    rw [SameBound, hlow, clampLow_eq_max]
    show _ ↔ w ≤ 0
    omega
  | copySource bound =>
    cases bound with
    | start =>
      rw [SameBound, hlow, clampLow_eq_max]
      show _ ↔ w ≤ 0
      omega
    | stop =>
      rw [SameBound, hhigh, clampHigh_eq_min]
      show _ ↔ w = -2 ^ 53 ∨ NoBytes heap
      refine or_congr_left ?_
      omega

theorem sameBound_refl (w : Int) (place : Place) : SameBound heap n w w place := by
  cases place with
  | toString bound | fill bound | slice bound | subarray bound => cases bound <;> exact .inl rfl
  | indexOf | copyTarget => rfl
  | copySource bound =>
    cases bound with
    | start => rfl
    | stop => exact .inl rfl

variable (this : LiveView heap)

/-- A Number saturates at a place precisely if it is in range, or enough of it is left. -/
theorem saturates_iff (x : JsNumber) (place : Place) :
    Saturates heap this.toView x place ↔
      (x.IsLarge → place.KeepsLarge heap this.length (jsToInt64Free x).toInt) ∧
        (x.IsSmall → place.KeepsSmall heap this.length (jsToInt64Free x).toInt) := by
  have hshort := this.toView.length_lt
  have hsame : Saturates heap this.toView x place ↔
      SameBound heap this.length (jsToInt64Free x).toInt (Int64.ofInt x.saturated).toInt place :=
    sameEffect_iff this _ _ place
  rw [hsame]
  rcases x.saturated_cases with ⟨hlarge, hsmall, hsat⟩ | ⟨hlarge, hsmall, hsat⟩ |
    ⟨hlarge, hsmall, hsat⟩
  · rw [hsat, Int64.toInt_ofInt_of_le (by decide) (by decide), sameBound_large hshort,
      and_iff_left fun h ↦ absurd h hsmall]
    exact ⟨fun h _ ↦ h, fun h ↦ h hlarge⟩
  · rw [hsat, Int64.toInt_ofInt_of_le (by decide) (by decide),
      sameBound_small hshort, and_iff_right fun h ↦ absurd h hlarge]
    exact ⟨fun h _ ↦ h, fun h ↦ h hsmall⟩
  · rw [hsat, Int64.ofInt_toInt]
    exact iff_of_true (sameBound_refl _ place)
      ⟨fun h ↦ absurd h hlarge, fun h ↦ absurd h hsmall⟩

end

/-- `toString('utf8', 0, Infinity)` of a Buffer of one byte is empty. -/
theorem toString_infinity :
    ¬ ∀ (heap : Heap) (this : LiveView heap) (x : JsNumber) (place : Place),
      Saturates heap this.toView x place := by
  intro h
  have heffect := h (storeOf [97] (by decide)) ⟨⟨0, 0, 1, false, by decide⟩, rfl, by decide⟩
    (.float64 .infinity) (.toString .stop) .undefined .undefined
  have hresult := congrArg Ran.result heffect
  revert hresult
  decide

end QNode.Buffer
