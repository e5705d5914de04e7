import SeismicHazard.Proofs.Results.Shares

/-!
# Shares of exact numbers

At exact numbers a cell of a matrix is the product of what all shares put into it, those of other
cells putting in one.
-/

noncomputable section

namespace SeismicHazard

namespace Share

/-- What a share puts into a cell and epsilon bin. -/
def factor (s : Share ℝ) (c : Cell) (eps : Nat) : ℝ := if c = s.cell then s.pnes.getD eps 1 else 1

theorem factor_eq_getD (s : Share ℝ) (c : Cell) (eps : Nat) :
    s.factor c eps = (s.factor? c eps).getD 1 := by
  unfold factor factor?
  split
  · rw [List.getD_eq_getElem?_getD]
  · rfl

/-- The product of what shares put into a cell and epsilon bin. -/
def product (shares : List (Share ℝ)) (c : Cell) (eps : Nat) : ℝ :=
  (shares.map (fun s => s.factor c eps)).prod

@[simp] theorem product_append (xs ys : List (Share ℝ)) (c : Cell) (eps : Nat) :
    product (xs ++ ys) c eps = product xs c eps * product ys c eps := by
  simp [product]

theorem product_perm {xs ys : List (Share ℝ)} (hperm : xs.Perm ys) (c : Cell) (eps : Nat) :
    product xs c eps = product ys c eps :=
  (hperm.map _).prod_eq

theorem prod_factors (shares : List (Share ℝ)) (c : Cell) (eps : Nat) :
    (factors shares c eps).prod = product shares c eps := by
  induction shares with
  | nil => rfl
  | cons s rest ih =>
      have hcons : factors (s :: rest) c eps = (s.factor? c eps).toList ++ factors rest c eps := by
        cases hfactor : s.factor? c eps <;> simp [factors, hfactor]
      rw [hcons, List.prod_append, ih, product, product, List.map_cons, List.prod_cons,
        factor_eq_getD]
      cases s.factor? c eps <;> simp

end Share

theorem Matrix.Counts.pne_eq {m : Matrix ℝ} {shares : List (Share ℝ)} (hm : m.Counts shares)
    {c : Cell} {eps : Nat} (hcell : m.shape.holds c = true) (heps : eps < m.shape.eps) :
    m.pne c eps = Share.product shares c eps := by
  rw [(hm.pne c eps hcell heps).eq_prod, Share.prod_factors]

end SeismicHazard

end
