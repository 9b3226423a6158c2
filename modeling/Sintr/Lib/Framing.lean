import Mathlib.Data.List.Basic

/-!
# Streams without separators

An encoder that writes its fields one after the other, with nothing between them, can be read back
if the reader knows how long each field is.

* `Framed encode layout content`: values of one layout have encodings of one length, and the
  encoding then determines the content.
* `Framed.append`, `Framed.flatMap`: two fields, and any number of them.
* `Framed.split`: reading an encoding off the front of a stream.
-/

namespace Framing

open List Option

universe u v w z

variable {α : Type u} {β : Type v} {δ δ₁ δ₂ : Type w} {γ γ₁ γ₂ : Type z}

structure Framed (encode : α → List β) (layout : α → δ) (content : α → γ) : Prop where
  length_eq : ∀ {x y}, layout x = layout y → (encode x).length = (encode y).length
  inj : ∀ {x y}, layout x = layout y → encode x = encode y → content x = content y

variable {encode encode₁ encode₂ : α → List β} {layout : α → δ} {content : α → γ}
  {layout₁ : α → δ₁} {layout₂ : α → δ₂} {content₁ : α → γ₁} {content₂ : α → γ₂}

theorem Framed.split (h : Framed encode layout content) {x y : α} (hl : layout x = layout y)
    {r s : List β} (heq : encode x ++ r = encode y ++ s) : content x = content y ∧ r = s := by
  obtain ⟨henc, hrest⟩ := append_inj heq (h.length_eq hl)
  exact ⟨h.inj hl henc, hrest⟩

theorem Framed.field (f : α → List β) : Framed f (fun x => (f x).length) f :=
  ⟨fun h => h, fun _ h => h⟩

theorem Framed.optional (f : α → Option (List β)) :
    Framed (fun x => (f x).getD []) (fun x => (f x).map length) f := by
  constructor
  · intro x y hl
    cases hx : f x with
    | none =>
      rw [hx, map_none, eq_comm, map_eq_none_iff] at hl
      rw [hl]
    | some a =>
      rw [hx, map_some, eq_comm, map_eq_some_iff] at hl
      obtain ⟨b, hy, hlen⟩ := hl
      rw [hy, getD_some, getD_some, hlen]
  · intro x y hl heq
    cases hx : f x with
    | none =>
      rw [hx, map_none, eq_comm, map_eq_none_iff] at hl
      exact hl.symm
    | some a =>
      rw [hx, map_some, eq_comm, map_eq_some_iff] at hl
      obtain ⟨b, hy, -⟩ := hl
      rw [hx, hy, getD_some, getD_some] at heq
      rw [hy, heq]

theorem Framed.fixed {k : Nat} (hlen : ∀ x, (encode x).length = k)
    (hinj : Function.Injective encode) : Framed encode (fun _ => ()) (fun x => x) :=
  ⟨fun _ => (hlen _).trans (hlen _).symm, fun _ h => hinj h⟩

theorem Framed.comap {σ : Type u} (h : Framed encode layout content) (f : σ → α) :
    Framed (fun s => encode (f s)) (fun s => layout (f s)) (fun s => content (f s)) :=
  ⟨fun hl => h.length_eq hl, fun hl heq => h.inj hl heq⟩

theorem Framed.mono (h : Framed encode layout content)
    (hl : ∀ {x y}, layout₁ x = layout₁ y → layout x = layout y)
    (hc : ∀ {x y}, layout₁ x = layout₁ y → content x = content y → content₁ x = content₁ y) :
    Framed encode layout₁ content₁ :=
  ⟨fun h₁ => h.length_eq (hl h₁), fun h₁ heq => hc h₁ (h.inj (hl h₁) heq)⟩

theorem Framed.append (h₁ : Framed encode₁ layout₁ content₁)
    (h₂ : Framed encode₂ layout₂ content₂) :
    Framed (fun x => encode₁ x ++ encode₂ x) (fun x => (layout₁ x, layout₂ x))
      (fun x => (content₁ x, content₂ x)) := by
  constructor
  · intro x y hl
    obtain ⟨hl₁, hl₂⟩ := Prod.mk.inj hl
    rw [length_append, length_append, h₁.length_eq hl₁, h₂.length_eq hl₂]
  · intro x y hl heq
    obtain ⟨hl₁, hl₂⟩ := Prod.mk.inj hl
    obtain ⟨hc₁, hrest⟩ := h₁.split hl₁ heq
    rw [hc₁, h₂.inj hl₂ hrest]

theorem Framed.flatMap (h : Framed encode layout content) :
    Framed (flatMap encode) (map layout) (map content) := by
  have hsplit : ∀ {xs ys : List α}, xs.map layout = ys.map layout →
      (xs.flatMap encode).length = (ys.flatMap encode).length ∧
      (xs.flatMap encode = ys.flatMap encode → xs.map content = ys.map content) := by
    intro xs
    induction xs with
    | nil =>
      intro ys hl
      rw [map_eq_nil_iff.1 hl.symm]
      exact ⟨rfl, fun _ => rfl⟩
    | cons x xs ih =>
      intro ys hl
      cases ys with
      | nil => cases hl
      | cons y ys =>
        obtain ⟨hx, hxs⟩ := cons.inj hl
        obtain ⟨hlen, hcontent⟩ := ih hxs
        rw [flatMap_cons, flatMap_cons]
        refine ⟨?_, fun heq => ?_⟩
        · rw [length_append, length_append, h.length_eq hx, hlen]
        · obtain ⟨hc, hrest⟩ := h.split hx heq
          rw [map_cons, map_cons, hc, hcontent hrest]
  exact ⟨fun hl => (hsplit hl).1, fun hl => (hsplit hl).2⟩

end Framing
