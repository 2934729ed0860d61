import Phosphoric.Video.Scanline

/-!
# The sprites of a line

`ula_ng_composite_scanline` puts the sprites of a line over the picture, the last sprite first, so
that the first is on top. It clips the width to 512 pixels, the size of its map of the pixels
covered, and takes the clipped width for the length of a line in the picture too.

**Theorem (`composite_iff`).** It gives each pixel of the line the colour of the lowest-numbered
sprite there, changes nothing else and finds the collisions, for every picture, if and only if the
width is at most 512, or the line is the first one, or nothing is drawn.
-/

namespace Phosphoric

open Function (update)

/-! ## Painting a line -/

/-- A component of a colour. -/
def Rgb.byte (rgb : Rgb) (j : Nat) : Byte :=
  if j = 0 then rgb.1 else if j = 1 then rgb.2.1 else rgb.2.2

/-- A picture of width `w` with some pixels of line `y` painted. -/
def painted (w y : Int) (colour : Int → Option Rgb) (fb : Nat → Byte) : Nat → Byte := fun i =>
  (colour (((i / 3 : Nat) : Int) - y * w)).elim (fb i) fun rgb => rgb.byte (i % 3)

theorem painted_none (w y : Int) (fb : Nat → Byte) : painted w y (fun _ => none) fb = fb := rfl

theorem painted_painted (w y : Int) (f g : Int → Option Rgb) (fb : Nat → Byte) :
    painted w y f (painted w y g fb) = painted w y (fun x => (f x).or (g x)) fb := by
  funext i
  rw [painted, painted, painted]
  cases f (((i / 3 : Nat) : Int) - y * w) <;> rfl

/-- The three bytes of a pixel. -/
theorem update_painted {w x y : Int} (hpos : 0 ≤ y * w + x) (rgb : Rgb) (fb : Nat → Byte) :
    update (update (update fb ((y * w + x) * 3).toNat rgb.1) (((y * w + x) * 3).toNat + 1) rgb.2.1)
        (((y * w + x) * 3).toNat + 2) rgb.2.2 =
      painted w y (fun x' => if x' = x then some rgb else none) fb := by
  funext i
  rw [painted]
  by_cases hi : ((i / 3 : Nat) : Int) - y * w = x
  · rw [if_pos hi, Option.elim_some, Rgb.byte]
    have hplace : i = ((y * w + x) * 3).toNat + i % 3 := by omega
    have hmod : i % 3 < 3 := Nat.mod_lt _ (by decide)
    generalize i % 3 = j at hplace hmod
    subst hplace
    obtain rfl | rfl | rfl : j = 0 ∨ j = 1 ∨ j = 2 := by omega
    all_goals simp
  · rw [if_neg hi, Option.elim_none, Function.update_of_ne (by omega),
      Function.update_of_ne (by omega), Function.update_of_ne (by omega)]

/-! ## The colour of a pixel -/

/-- The colour a sprite has at a pixel, if it is opaque there. -/
def spriteColour (u : UlaNgSprites) (s : Fin 16) (x y : Int) : Option Rgb :=
  let sprite := u.sprites s
  let row := y - sprite.y.toNat
  let col := x - sprite.x.toNat
  if sprite.enable ∧ 0 ≤ row ∧ row < 16 ∧ 0 ≤ col ∧ col < 16 then
    let idx := sprite.pattern (Fin.ofNat 256 (row.toNat * 16 + col.toNat))
    if idx = 0 then none else some (u.pal (idx.castLE palette_le))
  else none

/-- The colour of the lowest-numbered sprite opaque at a pixel, the sprites being on. -/
def lineColour (u : UlaNgSprites) (x y : Int) : Option Rgb :=
  if u.sprActive then (List.finRange 16).findSome? (spriteColour u · x y) else none

/-- The part of a line within the width. -/
def within (w : Int) (colour : Int → Option Rgb) (x : Int) : Option Rgb :=
  if 0 ≤ x ∧ x < w then colour x else none

/-! ## A sprite -/

section Sprite

variable {u : UlaNgSprites} {w y : Int} {s : Fin 16}

/-- The state of the loops: the picture, the pixels covered and the collision. -/
abbrev Composite := (Nat → Byte) × (Int → Bool) × Bool

/-- The body of the inner loop of `ula_ng_composite_scanline`. -/
def compositeColumn (u : UlaNgSprites) (w y : Int) (s : Fin 16) : Composite → Nat → Composite :=
  fun (fb, occ, collision) (col : Nat) =>
    let sprite := u.sprites s
    let idx := sprite.pattern (Fin.ofNat 256 ((y - sprite.y.toNat).toNat * 16 + col))
    let x : Int := sprite.x.toNat + col
    if idx = 0 ∨ x < 0 ∨ x ≥ w then (fb, occ, collision)
    else
      let off := ((y * w + x) * 3).toNat
      let rgb := u.pal (idx.castLE palette_le)
      (update (update (update fb off rgb.1) (off + 1) rgb.2.1) (off + 2) rgb.2.2,
        update occ x true, collision || occ x)

/-- What painting some pixels makes of a state. -/
structure PaintedBy (w y : Int) (colour : Int → Option Rgb) (acc acc' : Composite) : Prop where
  picture : acc'.1 = painted w y colour acc.1
  covered : ∀ x, acc'.2.1 x = (acc.2.1 x || (colour x).isSome)
  collision : acc'.2.2 = true ↔
    acc.2.2 = true ∨ ∃ x, (colour x).isSome = true ∧ acc.2.1 x = true

theorem PaintedBy.none (acc : Composite) : PaintedBy w y (fun _ => none) acc acc where
  picture := rfl
  covered x := (Bool.or_false _).symm
  collision := by simp

/-- A column, painted or not. -/
theorem compositeColumn_painted (hy : 0 ≤ y) (henable : (u.sprites s).enable = true)
    (hrow : 0 ≤ y - (u.sprites s).y.toNat ∧ y - (u.sprites s).y.toNat < 16) {col : Nat}
    (hcol : col < 16) (acc : Composite) :
    PaintedBy w y (fun x => if x = (u.sprites s).x.toNat + col then
      within w (spriteColour u s · y) x else none) acc (compositeColumn u w y s acc col) := by
  obtain ⟨fb, occ, collision⟩ := acc
  have hcolour : spriteColour u s ((u.sprites s).x.toNat + col) y =
      (let idx := (u.sprites s).pattern
        (Fin.ofNat 256 ((y - (u.sprites s).y.toNat).toNat * 16 + col))
      if idx = 0 then Option.none else some (u.pal (idx.castLE palette_le))) := by
    rw [spriteColour]
    dsimp only
    rw [if_pos ⟨henable, hrow.1, hrow.2, by omega, by omega⟩]
    have hplace : ((u.sprites s).x.toNat + (col : Int) - (u.sprites s).x.toNat).toNat = col := by
      omega
    simp only [hplace]
  rw [compositeColumn]
  dsimp only
  split_ifs with hout
  · have hnone : (fun x : Int => if x = (u.sprites s).x.toNat + col then
        within w (spriteColour u s · y) x else Option.none) = fun _ => Option.none := by
      funext x
      by_cases hx : x = (u.sprites s).x.toNat + col
      · rw [if_pos hx, hx, within]
        by_cases hin : (0 : Int) ≤ (u.sprites s).x.toNat + col ∧
            ((u.sprites s).x.toNat + col : Int) < w
        · rw [if_pos hin, hcolour]
          exact if_pos (hout.resolve_right (by omega))
        · rw [if_neg hin]
      · rw [if_neg hx]
    rw [hnone]
    exact .none _
  · simp only [not_or, not_lt, ge_iff_le, not_le] at hout
    obtain ⟨hidx, hlo, hhi⟩ := hout
    have hpos : 0 ≤ y * w + ((u.sprites s).x.toNat + (col : Int)) :=
      Int.add_nonneg (Int.mul_nonneg hy (by omega)) hlo
    have hsome : (fun x : Int => if x = (u.sprites s).x.toNat + col then
        within w (spriteColour u s · y) x else Option.none) =
        fun x : Int => if x = (u.sprites s).x.toNat + col then
          some (u.pal (((u.sprites s).pattern (Fin.ofNat 256
            ((y - (u.sprites s).y.toNat).toNat * 16 + col))).castLE palette_le)) else
          Option.none := by
      funext x
      by_cases hx : x = (u.sprites s).x.toNat + col
      · rw [if_pos hx, if_pos hx, hx, within, if_pos ⟨hlo, hhi⟩, hcolour]
        exact if_neg hidx
      · rw [if_neg hx, if_neg hx]
    rw [hsome]
    refine ⟨update_painted hpos _ fb, fun x => ?_, ?_⟩
    · dsimp only
      by_cases hx : x = (u.sprites s).x.toNat + col
      · rw [hx, Function.update_self, if_pos rfl]
        simp
      · rw [Function.update_of_ne hx, if_neg hx]
        simp
    · simp only [Bool.or_eq_true]
      refine or_congr_right ⟨fun hocc => ⟨_, by rw [if_pos rfl]; rfl, hocc⟩, ?_⟩
      rintro ⟨x, hx, hocc⟩
      by_cases heq : x = (u.sprites s).x.toNat + col
      · rwa [← heq]
      · rw [if_neg heq] at hx
        cases hx

/-- Pixels painted after others. -/
theorem PaintedBy.trans {f g : Int → Option Rgb} {acc acc' acc'' : Composite}
    (hf : PaintedBy w y f acc acc') (hg : PaintedBy w y g acc' acc'')
    (hdisjoint : ∀ x, (f x).isSome = true → g x = Option.none) :
    PaintedBy w y (fun x => (g x).or (f x)) acc acc'' where
  picture := by rw [hg.picture, hf.picture, painted_painted]
  covered x := by
    rw [hg.covered, hf.covered]
    cases g x <;> simp
  collision := by
    rw [hg.collision, hf.collision, or_assoc]
    refine or_congr_right ⟨?_, ?_⟩
    · rintro (⟨x, hx, hocc⟩ | ⟨x, hx, hocc⟩)
      · exact ⟨x, by rw [hdisjoint x hx]; exact hx, hocc⟩
      · rw [hf.covered, Bool.or_eq_true] at hocc
        refine ⟨x, by rw [Option.isSome_or, hx]; rfl, hocc.resolve_right fun hsome => ?_⟩
        rw [hdisjoint x hsome] at hx
        cases hx
    · rintro ⟨x, hx, hocc⟩
      rw [Option.isSome_or, Bool.or_eq_true] at hx
      rcases hx with hx | hx
      · exact .inr ⟨x, hx, by rw [hf.covered, hocc]; rfl⟩
      · exact .inl ⟨x, hx, hocc⟩

theorem spriteColour_none {x : Int}
    (h : ¬((u.sprites s).enable = true ∧ 0 ≤ y - (u.sprites s).y.toNat ∧
      y - (u.sprites s).y.toNat < 16 ∧ 0 ≤ x - (u.sprites s).x.toNat ∧
        x - (u.sprites s).x.toNat < 16)) : spriteColour u s x y = Option.none := if_neg h

theorem within_eq_none {colour : Int → Option Rgb} {x : Int} (h : colour x = Option.none) :
    within w colour x = Option.none := by
  rw [within, h, ite_self]

/-- The columns of a sprite. -/
theorem compositeColumns_painted (hy : 0 ≤ y) (henable : (u.sprites s).enable = true)
    (hrow : 0 ≤ y - (u.sprites s).y.toNat ∧ y - (u.sprites s).y.toNat < 16) (acc : Composite)
    (n : Nat) (hn : n ≤ 16) :
    PaintedBy w y (fun x => if x < (u.sprites s).x.toNat + n then
      within w (spriteColour u s · y) x else Option.none) acc
      ((List.range n).foldl (compositeColumn u w y s) acc) := by
  induction n with
  | zero =>
    have hnone : (fun x : Int => if x < (u.sprites s).x.toNat + (0 : Nat) then
        within w (spriteColour u s · y) x else Option.none) = fun _ => Option.none := by
      funext x
      by_cases hx : x < (u.sprites s).x.toNat + (0 : Nat)
      · rw [if_pos hx]
        refine within_eq_none (spriteColour_none ?_)
        rintro ⟨-, -, -, hcol, -⟩
        omega
      · rw [if_neg hx]
    rw [hnone]
    exact .none acc
  | succ n ih =>
    rw [List.range_succ, List.foldl_append]
    have hcolumn := compositeColumn_painted (w := w) hy henable hrow (show n < 16 by omega)
      ((List.range n).foldl (compositeColumn u w y s) acc)
    have hboth := (ih (by omega)).trans hcolumn fun x hx => by
      refine if_neg fun heq => ?_
      rw [if_neg (by omega)] at hx
      cases hx
    have hcolour : (fun x : Int => if x < (u.sprites s).x.toNat + (n + 1 : Nat) then
        within w (spriteColour u s · y) x else Option.none) = fun x : Int =>
        (if x = (u.sprites s).x.toNat + n then within w (spriteColour u s · y) x
          else Option.none).or
        (if x < (u.sprites s).x.toNat + n then within w (spriteColour u s · y) x
          else Option.none) := by
      funext x
      by_cases hx : x = (u.sprites s).x.toNat + n
      · rw [if_pos (by omega), if_pos hx, if_neg (by omega), Option.or_none]
      · rw [if_neg hx, Option.none_or]
        exact if_congr (by omega) rfl rfl
    rw [hcolour]
    exact hboth

/-- A sprite paints its opaque pixels. -/
theorem compositeSprite_painted (hy : 0 ≤ y) (acc : Composite) :
    PaintedBy w y (within w (spriteColour u s · y)) acc (compositeSprite u w y s acc) := by
  by_cases hout : (!(u.sprites s).enable) = true ∨ y - (u.sprites s).y.toNat < 0 ∨
      y - (u.sprites s).y.toNat ≥ 16
  · have hnone : within w (spriteColour u s · y) = fun _ => Option.none := by
      funext x
      refine within_eq_none (spriteColour_none ?_)
      rintro ⟨henable, hlo, hhi, -, -⟩
      rw [henable] at hout
      rcases hout with hbad | hbad | hbad
      · exact absurd hbad (by decide)
      · omega
      · omega
    rw [compositeSprite]
    dsimp only
    rw [if_pos hout, hnone]
    exact .none acc
  · have hsprite : compositeSprite u w y s acc =
        (List.range 16).foldl (compositeColumn u w y s) acc := if_neg hout
    simp only [not_or, Bool.not_eq_true', Bool.not_eq_false, not_lt, ge_iff_le, not_le] at hout
    obtain ⟨henable, hlo, hhi⟩ := hout
    have hcolour : within w (spriteColour u s · y) = fun x : Int =>
        if x < (u.sprites s).x.toNat + (16 : Nat) then within w (spriteColour u s · y) x
          else Option.none := by
      funext x
      by_cases hx : x < (u.sprites s).x.toNat + (16 : Nat)
      · rw [if_pos hx]
      · rw [if_neg hx]
        refine within_eq_none (spriteColour_none ?_)
        rintro ⟨-, -, -, -, hcol⟩
        omega
    rw [hsprite, hcolour]
    exact compositeColumns_painted hy henable ⟨hlo, hhi⟩ acc 16 le_rfl

/-- The sprites paint in their order, the first on top. -/
theorem compositeSprites_painted (hy : 0 ≤ y) (acc : Composite) (l : List (Fin 16))
    (hnodup : l.Nodup) (hocc : ∀ x, acc.2.1 x = false) :
    let acc' := l.foldr (compositeSprite u w y) acc
    acc'.1 = painted w y (within w fun x => l.findSome? (spriteColour u · x y)) acc.1 ∧
      (∀ x, acc'.2.1 x = true ↔ ∃ s ∈ l, (within w (spriteColour u s · y) x).isSome = true) ∧
      (acc'.2.2 = true ↔ acc.2.2 = true ∨ ∃ x, ∃ s ∈ l, ∃ s' ∈ l, s ≠ s' ∧
        (within w (spriteColour u s · y) x).isSome = true ∧
        (within w (spriteColour u s' · y) x).isSome = true) := by
  induction l with
  | nil =>
    refine ⟨?_, fun x => ?_, ?_⟩
    · have hnone : within w (fun x => [].findSome? (spriteColour u · x y)) = fun _ => Option.none :=
        funext fun x => within_eq_none rfl
      rw [hnone]
      rfl
    · simp [hocc x]
    · simp
  | cons s l ih =>
    obtain ⟨hnot, hrest⟩ := List.nodup_cons.mp hnodup
    obtain ⟨hpicture, hcovered, hcollision⟩ := ih hrest
    have hsprite := compositeSprite_painted (u := u) (w := w) (s := s) hy
      (l.foldr (compositeSprite u w y) acc)
    refine ⟨?_, fun x => ?_, ?_⟩
    · rw [List.foldr_cons, hsprite.picture, hpicture, painted_painted]
      refine congrArg (painted w y · acc.1) (funext fun x => ?_)
      rw [within, within, within, List.findSome?_cons]
      split_ifs
      · cases spriteColour u s x y <;> rfl
      · rfl
    · rw [List.foldr_cons, hsprite.covered, Bool.or_eq_true, hcovered,
        List.exists_mem_cons_iff, or_comm]
    · rw [List.foldr_cons, hsprite.collision, hcollision, or_assoc]
      refine or_congr_right ⟨?_, ?_⟩
      · rintro (⟨x, s₁, h₁, s₂, h₂, hpair⟩ | ⟨x, hx, hocc'⟩)
        · exact ⟨x, s₁, List.mem_cons_of_mem _ h₁, s₂, List.mem_cons_of_mem _ h₂, hpair⟩
        · obtain ⟨s', hs', hsome⟩ := (hcovered x).mp hocc'
          exact ⟨x, s, List.mem_cons_self, s', List.mem_cons_of_mem _ hs',
            fun heq => hnot (heq ▸ hs'), hx, hsome⟩
      · rintro ⟨x, s₁, h₁, s₂, h₂, hne, hsome₁, hsome₂⟩
        rcases List.mem_cons.mp h₁ with rfl | hin₁
        · rcases List.mem_cons.mp h₂ with rfl | hin₂
          · exact absurd rfl hne
          · exact .inr ⟨x, hsome₁, (hcovered x).mpr ⟨s₂, hin₂, hsome₂⟩⟩
        · rcases List.mem_cons.mp h₂ with rfl | hin₂
          · exact .inr ⟨x, hsome₂, (hcovered x).mpr ⟨s₁, hin₁, hsome₁⟩⟩
          · exact .inl ⟨x, s₁, hin₁, s₂, hin₂, hne, hsome₁, hsome₂⟩

end Sprite

/-! ## A line -/

/-- What compositing line `y` of a picture of `w` by `h` pixels is to do. -/
structure Composited (u : UlaNgSprites) (fb : Nat → Byte) (w h y : Int)
    (out : (Nat → Byte) × UlaNgSprites) : Prop where
  /-- The pixels of the line. -/
  line : 0 ≤ y → y < h → ∀ x, 0 ≤ x → x < w → ∀ i : Nat, ((i / 3 : Nat) : Int) = y * w + x →
    out.1 i = (lineColour u x y).elim (fb i) fun rgb => rgb.byte (i % 3)
  /-- The other pixels. -/
  other : ∀ i : Nat, (¬∃ x, 0 ≤ y ∧ y < h ∧ 0 ≤ x ∧ x < w ∧ ((i / 3 : Nat) : Int) = y * w + x) →
    out.1 i = fb i
  collision : out.2.sprCollision = true ↔ u.sprCollision = true ∨
    u.sprActive = true ∧ 0 ≤ y ∧ y < h ∧ ∃ x, 0 ≤ x ∧ x < w ∧ ∃ s s', s ≠ s' ∧
      (spriteColour u s x y).isSome = true ∧ (spriteColour u s' x y).isSome = true
  kept : out.2 = { u with sprCollision := out.2.sprCollision }

section Line

variable {u : UlaNgSprites} {w h y : Int}

theorem isSome_within {colour : Int → Option Rgb} {x : Int} :
    (within w colour x).isSome = true ↔ 0 ≤ x ∧ x < w ∧ (colour x).isSome = true := by
  rw [within]
  split_ifs with hin
  · simp [hin]
  · simp only [Option.isSome_none, Bool.false_eq_true, false_iff]
    exact fun hout => hin ⟨hout.1, hout.2.1⟩

/-- A sprite is within the first 512 pixels. -/
theorem spriteColour_lt {s : Fin 16} {x : Int} (hsome : (spriteColour u s x y).isSome = true) :
    0 ≤ x ∧ x < 512 := by
  by_contra hout
  rw [spriteColour_none] at hsome
  · cases hsome
  · rintro ⟨-, -, -, hlo, hhi⟩
    have := (u.sprites s).x.isLt
    omega

theorem lineColour_lt {x : Int} (hsome : (lineColour u x y).isSome = true) : 0 ≤ x ∧ x < 512 := by
  rw [lineColour] at hsome
  split_ifs at hsome
  · obtain ⟨s, -, hs⟩ := List.exists_of_findSome?_eq_some (Option.some_get hsome).symm
    exact spriteColour_lt (s := s) (by rw [hs]; rfl)
  · cases hsome

/-- What `ula_ng_composite_scanline` does: the line is taken for one of the clipped width. -/
theorem composite_eq (hdrawn : u.sprActive = true ∧ 0 ≤ y ∧ y < h) (fb : Nat → Byte) :
    (ulaNgCompositeScanline u fb w h y).1 =
        painted (min w 512) y (within w (lineColour u · y)) fb ∧
      ((ulaNgCompositeScanline u fb w h y).2.sprCollision = true ↔ u.sprCollision = true ∨
        ∃ x, 0 ≤ x ∧ x < w ∧ ∃ s s', s ≠ s' ∧
          (spriteColour u s x y).isSome = true ∧ (spriteColour u s' x y).isSome = true) ∧
      (ulaNgCompositeScanline u fb w h y).2 =
        { u with sprCollision := (ulaNgCompositeScanline u fb w h y).2.sprCollision } := by
  obtain ⟨hactive, hlo, hhi⟩ := hdrawn
  obtain ⟨hpicture, -, hcollision⟩ := compositeSprites_painted (u := u) (w := min w 512) hlo
    (fb, fun _ => false, u.sprCollision) (List.finRange 16) (List.nodup_finRange 16) fun _ => rfl
  have hguard : ¬((!u.sprActive) = true ∨ y < 0 ∨ y ≥ h) := by
    rw [hactive]
    rintro (hbad | hbad | hbad)
    · exact absurd hbad (by decide)
    · omega
    · omega
  rw [ulaNgCompositeScanline, if_neg hguard]
  dsimp only at hpicture hcollision ⊢
  refine ⟨?_, ?_, rfl⟩
  · rw [hpicture]
    refine congrArg (painted (min w 512) y · fb) (funext fun x => ?_)
    have hline : lineColour u x y = (List.finRange 16).findSome? (spriteColour u · x y) :=
      if_pos hactive
    rw [within, within, ← hline]
    by_cases hin : 0 ≤ x ∧ x < min w 512
    · rw [if_pos hin, if_pos ⟨hin.1, hin.2.trans_le (min_le_left _ _)⟩]
    · rw [if_neg hin]
      split_ifs with hin'
      · by_contra hsome
        obtain ⟨-, hlt⟩ := lineColour_lt (Option.isSome_iff_ne_none.mpr (Ne.symm hsome))
        exact hin ⟨hin'.1, lt_min hin'.2 hlt⟩
      · rfl
  · rw [hcollision]
    refine or_congr_right ⟨?_, ?_⟩
    · rintro ⟨x, s, -, s', -, hne, hs, hs'⟩
      rw [isSome_within] at hs hs'
      exact ⟨x, hs.1, hs.2.1.trans_le (min_le_left _ _), s, s', hne, hs.2.2, hs'.2.2⟩
    · rintro ⟨x, hx, hxw, s, s', hne, hs, hs'⟩
      have hlt : x < min w 512 := lt_min hxw (spriteColour_lt hs).2
      exact ⟨x, s, List.mem_finRange s, s', List.mem_finRange s', hne,
        isSome_within.mpr ⟨hx, hlt, hs⟩, isSome_within.mpr ⟨hx, hlt, hs'⟩⟩

/-- The sprites are off, or the line is not one of the picture. -/
theorem composited_undrawn (hnot : ¬(u.sprActive = true ∧ 0 ≤ y ∧ y < h)) (fb : Nat → Byte) :
    Composited u fb w h y (ulaNgCompositeScanline u fb w h y) := by
  have hguard : (!u.sprActive) = true ∨ y < 0 ∨ y ≥ h := by
    by_cases hactive : u.sprActive = true
    · refine .inr ?_
      by_contra hin
      exact hnot ⟨hactive, by omega, by omega⟩
    · exact .inl (by simpa using hactive)
  have hsame : ulaNgCompositeScanline u fb w h y = (fb, u) := if_pos hguard
  rw [hsame]
  refine ⟨fun hlo hhi x _ _ i _ => ?_, fun i _ => rfl, ?_, rfl⟩
  · have hoff : lineColour u x y = none := if_neg fun hactive => hnot ⟨hactive, hlo, hhi⟩
    rw [hoff]
    rfl
  · refine ⟨.inl, fun hcollision => hcollision.resolve_right ?_⟩
    rintro ⟨hactive, hlo, hhi, -⟩
    exact hnot ⟨hactive, hlo, hhi⟩

/-- Nothing is drawn on the line. -/
theorem composited_none (hdrawn : u.sprActive = true ∧ 0 ≤ y ∧ y < h)
    (hnone : ∀ x, 0 ≤ x → x < w → lineColour u x y = none) (fb : Nat → Byte) :
    Composited u fb w h y (ulaNgCompositeScanline u fb w h y) := by
  obtain ⟨hpicture, hcollision, hkept⟩ := composite_eq (w := w) hdrawn fb
  have hsame : (ulaNgCompositeScanline u fb w h y).1 = fb := by
    have hwithin : within w (lineColour u · y) = fun _ => none := by
      funext x
      rw [within]
      split_ifs with hin
      · exact hnone x hin.1 hin.2
      · rfl
    rw [hpicture, hwithin, painted_none]
  refine ⟨fun _ _ x hx hxw i _ => ?_, fun i _ => congrFun hsame i, ?_, hkept⟩
  · rw [hsame, hnone x hx hxw]
    rfl
  · rw [hcollision]
    exact or_congr_right ⟨fun hpair => ⟨hdrawn.1, hdrawn.2.1, hdrawn.2.2, hpair⟩,
      fun hpair => hpair.2.2.2⟩

/-- The line is where the clipped width puts it. -/
theorem composited_stride (hdrawn : u.sprActive = true ∧ 0 ≤ y ∧ y < h)
    (hstride : y * min w 512 = y * w) (fb : Nat → Byte) :
    Composited u fb w h y (ulaNgCompositeScanline u fb w h y) := by
  obtain ⟨hpicture, hcollision, hkept⟩ := composite_eq (w := w) hdrawn fb
  refine ⟨fun _ _ x hx hxw i hi => ?_, fun i hi => ?_, ?_, hkept⟩
  · rw [hpicture, painted, hstride, hi, add_sub_cancel_left, within, if_pos ⟨hx, hxw⟩]
  · rw [hpicture, painted, hstride, within, if_neg]
    · rfl
    · rintro ⟨hx, hxw⟩
      exact hi ⟨_, hdrawn.2.1, hdrawn.2.2, hx, hxw, (add_sub_cancel _ _).symm⟩
  · rw [hcollision]
    exact or_congr_right ⟨fun hpair => ⟨hdrawn.1, hdrawn.2.1, hdrawn.2.2, hpair⟩,
      fun hpair => hpair.2.2.2⟩

/-- In a wider picture the first pixel drawn is one that is not to change. -/
theorem not_composited (hw : 512 < w) (hy : 0 < y) (hyh : y < h)
    {x : Int} (hx : 0 ≤ x) (hxw : x < w) (hsome : lineColour u x y ≠ none) :
    ∃ fb, ¬Composited u fb w h y (ulaNgCompositeScanline u fb w h y) := by
  classical
  have hactive : u.sprActive = true := by
    by_contra hoff
    exact hsome (if_neg hoff)
  have hex : ∃ n : Nat, (n : Int) < w ∧ lineColour u n y ≠ none :=
    ⟨x.toNat, by rw [Int.toNat_of_nonneg hx]; exact ⟨hxw, hsome⟩⟩
  obtain ⟨n, ⟨hlt, hne⟩, hfirst⟩ : ∃ n : Nat, ((n : Int) < w ∧ lineColour u n y ≠ none) ∧
      ∀ m < n, ¬((m : Int) < w ∧ lineColour u m y ≠ none) :=
    ⟨Nat.find hex, Nat.find_spec hex, fun _ => Nat.find_min hex⟩
  obtain ⟨rgb, hrgb⟩ := Option.ne_none_iff_exists'.mp hne
  refine ⟨fun _ => rgb.1 + 1, fun hall => ?_⟩
  obtain ⟨hpicture, -, -⟩ := composite_eq (w := w) ⟨hactive, hy.le, hyh⟩ fun _ => rgb.1 + 1
  have hmin : min w 512 = 512 := min_eq_right hw.le
  -- the address the first byte goes to
  have hpos : 0 ≤ y * 512 + n := by omega
  obtain ⟨p, hp⟩ := Int.eq_ofNat_of_zero_le hpos
  have hdiv : ((p * 3 / 3 : Nat) : Int) = y * 512 + n := by
    rw [Nat.mul_div_cancel _ (by decide), hp]
  have hwritten : (ulaNgCompositeScanline u (fun _ => rgb.1 + 1) w h y).1 (p * 3) = rgb.1 := by
    rw [hpicture, painted, hmin, hdiv, add_sub_cancel_left, within,
      if_pos ⟨Int.natCast_nonneg n, hlt⟩, hrgb, Option.elim_some, Nat.mul_mod_left]
    rfl
  have hkept : (ulaNgCompositeScanline u (fun _ => rgb.1 + 1) w h y).1 (p * 3) = rgb.1 + 1 := by
    have hshift : y * 512 < y * w := (Int.mul_lt_mul_left hy).mpr hw
    by_cases hline : ∃ x, 0 ≤ y ∧ y < h ∧ 0 ≤ x ∧ x < w ∧
        ((p * 3 / 3 : Nat) : Int) = y * w + x
    · obtain ⟨x', -, -, hx', hxw', heq⟩ := hline
      have hless : x'.toNat < n := by omega
      have hclear : lineColour u x' y = none := by
        by_contra hsome'
        refine hfirst _ hless ⟨by omega, ?_⟩
        rwa [Int.toNat_of_nonneg hx']
      rw [hall.line hy.le hyh x' hx' hxw' (p * 3) heq, hclear]
      rfl
    · exact hall.other (p * 3) hline
  have hstep : rgb.1 = rgb.1 + 1 := hwritten.symm.trans hkept
  bv_omega

end Line

/-- **Compositing a line** does what it is to, whatever the picture, if and only if the width is at
most 512, the line is the first, or nothing of it is drawn. -/
theorem composite_iff (u : UlaNgSprites) (w h y : Int) :
    (∀ fb, Composited u fb w h y (ulaNgCompositeScanline u fb w h y)) ↔
      w ≤ 512 ∨ y ≤ 0 ∨ h ≤ y ∨ ∀ x, 0 ≤ x → x < w → lineColour u x y = none := by
  constructor
  · intro hall
    by_contra hbad
    simp only [not_or, not_le, not_forall] at hbad
    obtain ⟨hw, hy, hyh, x, hx, hxw, hsome⟩ := hbad
    obtain ⟨fb, hnot⟩ := not_composited hw hy hyh hx hxw hsome
    exact hnot (hall fb)
  · intro hok fb
    by_cases hdrawn : u.sprActive = true ∧ 0 ≤ y ∧ y < h
    · rcases hok with hw | hy | hyh | hnone
      · exact composited_stride hdrawn (by rw [min_eq_left hw]) fb
      · have hzero : y = 0 := by omega
        exact composited_stride hdrawn (by rw [hzero, Int.zero_mul, Int.zero_mul]) fb
      · omega
      · exact composited_none hdrawn hnone fb
    · exact composited_undrawn hdrawn fb

/-- A picture of 600 pixels and a sprite at its left edge, opaque at one pixel. -/
def wideSprites : UlaNgSprites where
  sprActive := true
  sprites s := ⟨0#8, 0#8, s = 0, fun i => if i = 16 then 1 else 0⟩
  pal _ := (0xFF#8, 0#8, 0#8)
  sprCollision := false

/-- Line 1 goes to pixel 512, which is one of line 0. -/
theorem composite_wide :
    ¬Composited wideSprites (fun _ => 0#8) 600 224 1
      (ulaNgCompositeScanline wideSprites (fun _ => 0#8) 600 224 1) := by
  intro h
  have hline := h.other 1536 (by
    rintro ⟨x, -, -, hx, -, heq⟩
    have hplace : ((1536 / 3 : Nat) : Int) = 512 := rfl
    omega)
  revert hline
  decide +kernel

end Phosphoric
