import Mathlib.Data.List.Infix

/-!
# Feeds of an evicting log

A log grows at its end and keeps only the last of its entries. A feed reads it from a position of
its own: it is given entries in order, or told of a gap where entries were gone before it could read
them. Positions count entries; the entry behind position `p` has the number `p + 1`.

* `account`: the position a feed has come to, if its items account for every number once, in order.
* `account_mono`: what is accounted for stays so when the log grows.
* `account_gap`, `account_window`: the items that take a feed up to the retained entries, and over
  some of them.
-/

namespace PageSpeed.Run

open List

variable {α : Type} [DecidableEq α]

/-- An item of a feed. -/
inductive Item (α : Type)
  | entry (a : α)
  | gap (count first last : ℕ)

/-- The position behind the items, if they cover the numbers behind the position in order, each by
its entry or within one gap. -/
def account (log : List α) : ℕ → List (Item α) → Option ℕ
  | p, [] => some p
  | p, .entry a :: items => if log[p]? = some a then account log (p + 1) items else none
  | p, .gap count first last :: items =>
    if first = p + 1 ∧ last = p + count ∧ 0 < count then account log last items else none

variable {log log' retained : List α} {p q : ℕ} {items more : List (Item α)}

/-- An account, part by part. -/
theorem account_append (log : List α) (p : ℕ) (items more : List (Item α)) :
    account log p (items ++ more) = (account log p items).bind fun q => account log q more := by
  induction items generalizing p with
  | nil => rfl
  | cons item items ih =>
    cases item with
    | entry a =>
      simp only [cons_append, account]
      split
      · exact ih (p + 1)
      · rfl
    | gap count first last =>
      simp only [cons_append, account]
      split
      · exact ih last
      · rfl

/-- A longer log changes no account. -/
theorem account_mono (hlog : log <+: log') (h : account log p items = some q) :
    account log' p items = some q := by
  induction items generalizing p with
  | nil => exact h
  | cons item items ih =>
    cases item with
    | entry a =>
      simp only [account, Option.ite_none_right_eq_some] at h ⊢
      obtain ⟨rest, rfl⟩ := hlog
      have hlt := (List.getElem?_eq_some_iff.1 h.1).1
      exact ⟨(getElem?_append_left hlt).trans h.1, ih h.2⟩
    | gap count first last =>
      simp only [account, Option.ite_none_right_eq_some] at h ⊢
      exact ⟨h.1, ih h.2⟩

/-- A gap takes the feed to any later position. -/
theorem account_gap (log : List α) (hlt : p < q) :
    account log p [.gap (q - p) (p + 1) q] = some q := by
  rw [account, if_pos ⟨rfl, by omega, by omega⟩]
  rfl

/-- Entries from where the feed stands. -/
theorem account_entries (log : List α) (p n : ℕ) :
    account log p (((log.drop p).take n).map .entry) = some (p + ((log.drop p).take n).length) := by
  induction n generalizing p with
  | zero => simp [account]
  | succ n ih =>
    cases hlog : log[p]? with
    | none =>
      have hdrop : log.drop p = [] := drop_eq_nil_of_le (getElem?_eq_none_iff.1 hlog)
      simp [hdrop, account]
    | some a =>
      obtain ⟨hlt, rfl⟩ := List.getElem?_eq_some_iff.1 hlog
      rw [List.drop_eq_getElem_cons hlt, List.take_succ_cons, List.map_cons, account,
        if_pos hlog, ih, length_cons]
      congr 1
      omega

/-- Retained entries, read from a position they hold. -/
theorem account_window (hretained : retained <:+ log)
    (hp : log.length - retained.length ≤ p) (n : ℕ) :
    account log p (((retained.drop (p - (log.length - retained.length))).take n).map .entry) =
      some (p + ((retained.drop (p - (log.length - retained.length))).take n).length) := by
  have hdrop : retained.drop (p - (log.length - retained.length)) = log.drop p := by
    conv_lhs => rw [suffix_iff_eq_drop.1 hretained, drop_drop]
    congr 1
    have hlen := hretained.length_le
    rw [length_drop]
    omega
  rw [hdrop]
  exact account_entries log p n

end PageSpeed.Run
