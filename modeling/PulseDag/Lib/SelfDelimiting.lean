import Mathlib

/-!
# Self-delimiting encodings

An encoding is self-delimiting on the values that fit it if the code of a value shows where
it ends: from the code and whatever follows it, both the value and the rest can be recovered.
Fields of fixed width are self-delimiting, and so is a counted list of self-delimiting fields;
such encodings are injective.
-/

namespace PulseDag

open List

variable {α β γ : Type}

/-- What precedes and what follows can be told apart. -/
def SelfDelimiting (fits : α → Prop) (encode : α → List β) : Prop :=
  ∀ ⦃a b : α⦄, fits a → fits b → ∀ ⦃rest rest' : List β⦄,
    encode a ++ rest = encode b ++ rest' → a = b ∧ rest = rest'

namespace SelfDelimiting

variable {encode : α → List β} {fits : α → Prop}

/-- A self-delimiting encoding is injective. -/
theorem eq_of_encode_eq (h : SelfDelimiting fits encode) {a b : α} (ha : fits a) (hb : fits b)
    (heq : encode a = encode b) : a = b := by
  have happend : encode a ++ [] = encode b ++ [] := by rw [heq]
  exact (h ha hb happend).1

/-- Codes of one fixed length. -/
theorem of_length {n : ℕ} (hlength : ∀ a, (encode a).length = n)
    (hinj : ∀ a b, fits a → fits b → encode a = encode b → a = b) : SelfDelimiting fits encode := by
  intro a b ha hb rest rest' heq
  obtain ⟨hcode, hrest⟩ := append_inj heq (by rw [hlength, hlength])
  exact ⟨hinj a b ha hb hcode, hrest⟩

/-- A value encoded through a view that determines it. -/
theorem comp (h : SelfDelimiting fits encode) {view : γ → α} (hview : Function.Injective view) :
    SelfDelimiting (fun c => fits (view c)) (fun c => encode (view c)) := by
  intro c d hc hd rest rest' heq
  obtain ⟨hcode, hrest⟩ := h hc hd heq
  exact ⟨hview hcode, hrest⟩

/-- Lists of the same length, one value after the other. -/
theorem flatMap_inj {fits : α → Prop} {encode : α → List β} (h : SelfDelimiting fits encode)
    {l l' : List α} (hl : ∀ a ∈ l, fits a) (hl' : ∀ a ∈ l', fits a) (hlength : l.length = l'.length)
    {rest rest' : List β} (heq : l.flatMap encode ++ rest = l'.flatMap encode ++ rest') :
    l = l' ∧ rest = rest' := by
  induction l generalizing l' with
  | nil =>
    cases l' with
    | nil => exact ⟨rfl, heq⟩
    | cons b l' => cases hlength
  | cons a l ih =>
    cases l' with
    | nil => cases hlength
    | cons b l' =>
      obtain ⟨ha, htl⟩ := forall_mem_cons.mp hl
      obtain ⟨hb, htl'⟩ := forall_mem_cons.mp hl'
      rw [flatMap_cons, flatMap_cons, append_assoc, append_assoc] at heq
      obtain ⟨rfl, htail⟩ := h ha hb heq
      obtain ⟨rfl, hrest⟩ := ih htl htl' (Nat.succ.inj hlength) htail
      exact ⟨rfl, hrest⟩

/-- A list after its length. -/
theorem counted (h : SelfDelimiting fits encode) {fitsCount : ℕ → Prop} {count : ℕ → List β}
    (hcount : SelfDelimiting fitsCount count) :
    SelfDelimiting (fun l : List α => fitsCount l.length ∧ ∀ a ∈ l, fits a)
      (fun l => count l.length ++ l.flatMap encode) := by
  rintro l l' ⟨hlength, hl⟩ ⟨hlength', hl'⟩ rest rest' heq
  simp only [append_assoc] at heq
  obtain ⟨hsame, htail⟩ := hcount hlength hlength' heq
  exact h.flatMap_inj hl hl' hsame htail

end SelfDelimiting

end PulseDag
