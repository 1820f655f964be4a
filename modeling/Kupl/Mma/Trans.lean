import Kupl.Mma.Copy
import Kupl.Mma.Order

/-!
# The packing copies, element by element (`kupl_mma_copy.h`)

The copies that pack a matrix move its elements and do not look at them, so their elements are of any type here, and
what they read and write is recorded: `Moves`. A vector has some lanes, and a lane has one or more consecutive elements
of the matrix. As in `Trans`, the kernels differ in the lines that they pack together and in the tiles; two of them use
one tile for one half of the lines after the other. `Kernel.copyTrans` and `Kernel.copyHalves` are the common bodies.
The kernels of bytes make the moves that are recorded here (`callCopyTrans_does`).

Products of `int` are checked; `none` is an overflow. Pointers are offsets in their buffer, counted in elements.
-/

namespace Kupl.Mma
open Sme List

section Model
variable {β : Type} [Zero β]

/-- The array, at tile, horizontal slice, lane and element of the lane, and what has been read and written. -/
structure Moves (β : Type) where
  za : Fin 4 → Nat → Nat → Nat → β
  reads : List Int
  writes : List (Int × β)

/-- The lanes of a vector, the elements of a lane and the lanes below the bound of the predicate. -/
structure Kernel extends Trans where
  lanes : Nat
  group : Nat
  stop : Nat

variable (k : Kernel)

/-- The lanes of a vector that take part (`svwhilelt_b32`, `svwhilelt_b64`). -/
def Kernel.active : Nat := min k.stop k.lanes

/-- Elements from memory to a horizontal slice, `0` in the other lanes (`svld1_hor_za32`, `svld1_hor_za64`). -/
def Kernel.load (src : Int → β) (slice : Fin 16) (tile : Fin 4) (a : Int) (s : Moves β) : Moves β :=
  { s with
    za := fun q r c b =>
      if q = tile ∧ r = slice then if c < k.active then src (a + k.group * c + b) else 0 else s.za q r c b
    reads := s.reads ++ (List.range (k.active * k.group)).map fun (i : Nat) => a + i }

/-- A vertical slice to memory (`svst1_ver_za32`, `svst1_ver_za64`). -/
def Kernel.store (slice : Fin 16) (tile : Fin 4) (a : Int) (s : Moves β) : Moves β :=
  { s with
    writes := s.writes ++ (List.range k.active).flatMap fun (r : Nat) =>
      (List.range k.group).map fun (b : Nat) => (a + k.group * r + b, s.za tile r slice b) }

/-- Where the block of a turn is put (C++ `data_dst0` to `data_dst3`). -/
def dataDst (k : Kernel) (size tileL tileK : Int) : Option Int := do
  let block ← Word.mul 32 tileL size
  let place ← Word.mul 32 tileK k.lines
  pure (block + place)

/-- The body of the two loops: a vector of every line goes through the tiles. -/
def Kernel.transBlock (src : Int → β) (size tileL tileK : Int) (s : Moves β) : Option (Moves β) := do
  let srcs ← k.tiles.mapM (dataSrc size tileL tileK)
  let s := sweep (k.load src) size k.lanes 0 srcs s
  let dst ← dataDst k size tileL tileK
  let dsts := k.tiles.map fun (tile, _, off) => (tile, dst + off)
  pure (sweep k.store (k.lines * k.group) k.lanes 0 dsts s)

/-- The body of the inner loop over the halves: a vector of every line of a half goes through the first tile. -/
def Kernel.transHalf (src : Int → β) (size tileL tileK half : Int) (s : Moves β) : Option (Moves β) := do
  let block ← Word.mul 32 tileL size
  let lines ← Word.mul 32 half size
  let s := sweep (k.load src) size k.lanes 0 [(0, block + lines + tileK)] s
  let dst ← dataDst k size tileL tileK
  let off ← Word.mul 32 half 2
  pure (sweep k.store (k.lines * k.group) k.lanes 0 [(0, dst + off)] s)

/-- A loop over the blocks of lines, and for each block one over the vectors of a line. -/
def Kernel.blocks (body : Int → Int → Moves β → Option (Moves β)) (count size : Int) (s : Moves β) :
    Option (Moves β) :=
  loop k.lines (fun tileL => loop (k.lanes * k.group) (body tileL) (turns size (k.lanes * k.group)) 0)
    (turns count k.lines) 0 s

/-- The kernels that use a tile for each part of the lines, for `count` lines of `size` elements. -/
def Kernel.copyTrans (src : Int → β) (count size : Int) (s : Moves β) : Option (Moves β) :=
  k.blocks (fun tileL tileK => k.transBlock src size tileL tileK) count size s

/-- The kernels that use one tile for one half of the lines after the other. -/
def Kernel.copyHalves (src : Int → β) (count size : Int) (s : Moves β) : Option (Moves β) :=
  k.blocks (fun tileL tileK => loop 16 (k.transHalf src size tileL tileK) (turns k.lines 16) 0) count size s

end Model

/-! ### Moves that add up -/

variable {β : Type} {src : Int → β} {n l : Nat} {S T : Int → Int → Prop} {s s' r : Moves β}

/-- From `s` to `s'` there are so many reads and writes, and among them the moves `S` of elements. -/
def Moved (src : Int → β) (n : Nat) (S : Int → Int → Prop) (s s' : Moves β) : Prop :=
  ∃ R W, s'.reads = s.reads ++ R ∧ s'.writes = s.writes ++ W ∧ R.length = n ∧ W.length = n ∧
    ∀ x a, S x a → (x, src a) ∈ W ∧ a ∈ R

lemma Moved.none : Moved src 0 (fun _ _ => False) s s :=
  ⟨[], [], (append_nil _).symm, (append_nil _).symm, rfl, rfl, fun _ _ => False.elim⟩

lemma Moved.trans (first : Moved src n S s r) (next : Moved src l T r s') :
    Moved src (n + l) (fun x a => S x a ∨ T x a) s s' := by
  obtain ⟨R, W, reads, writes, numberR, numberW, all⟩ := first
  obtain ⟨R', W', reads', writes', numberR', numberW', all'⟩ := next
  refine ⟨R ++ R', W ++ W', ?_, ?_, ?_, ?_, fun x a is => ?_⟩
  · rw [reads', reads, append_assoc]
  · rw [writes', writes, append_assoc]
  · rw [length_append, numberR, numberR']
  · rw [length_append, numberW, numberW']
  · obtain is | is := is
    · obtain ⟨write, read⟩ := all x a is
      exact ⟨mem_append_left _ write, mem_append_left _ read⟩
    · obtain ⟨write, read⟩ := all' x a is
      exact ⟨mem_append_right _ write, mem_append_right _ read⟩

lemma Moved.mono (moved : Moved src n S s s') (eq : n = l) (sub : ∀ x a, T x a → S x a) : Moved src l T s s' := by
  obtain ⟨R, W, reads, writes, numberR, numberW, all⟩ := moved
  exact ⟨R, W, reads, writes, eq ▸ numberR, eq ▸ numberW, fun x a is => all x a (sub x a is)⟩

lemma loop_moved {step : Int} {body : Int → Moves β → Option (Moves β)} {T : Nat → Int → Int → Prop}
    (nonneg : 0 ≤ step)
    (fits : n * step < 2 ^ 31) (turn : ∀ u < n, ∀ s, ∃ s', body (u * step) s = some s' ∧ Moved src l (T u) s s')
    (s : Moves β) : ∃ s', loop step body n 0 s = some s' ∧
      Moved src (n * l) (fun x a => ∃ u < n, T u x a) s s' := by
  refine loop_some (fun u r => Moved src (u * l) (fun x a => ∃ v < u, T v x a) s r) nonneg fits ?_ ?_
  · intro u lt r before
    obtain ⟨r', run, moved⟩ := turn u lt r
    refine ⟨r', run, (before.trans moved).mono (Nat.succ_mul _ _).symm ?_⟩
    rintro x a ⟨v, lt, is⟩
    obtain lt | rfl := Nat.lt_or_eq_of_le (Nat.le_of_lt_succ lt)
    · exact .inl ⟨v, lt, is⟩
    · exact .inr is
  · refine Moved.none.mono (Nat.zero_mul _).symm ?_
    rintro x a ⟨v, lt, -⟩
    exact absurd lt (Nat.not_lt_zero v)

/-! ### The loops over the blocks -/

variable {k : Kernel} {size : Int} {height width i j : Nat}

def Block (k : Kernel) (height size i j : Nat) (x a : Int) : Prop :=
  ∃ l < height, ∃ t < k.lanes, ∃ b < k.group,
    x = ((i * height * size + (j * k.lanes + t) * k.group * height + l * k.group + b : Nat) : Int) ∧
    a = (((i * height + l) * size + ((j * k.lanes + t) * k.group + b) : Nat) : Int)

variable {c w : Nat} {α γ : Type}

lemma Kernel.blocks_moved (body : Int → Int → Moves β → Option (Moves β)) (isLines : k.lines = height)
    (fitC : c * height < 2 ^ 31) (fitW : w * (k.lanes * k.group) < 2 ^ 31) (posH : 0 < height)
    (posV : 0 < k.lanes * k.group)
    (turn : ∀ i < c, ∀ j < w, ∀ s, ∃ s', body ((i : Int) * height) (j * (k.lanes * k.group)) s = some s' ∧
      Moved src (height * (k.lanes * k.group)) (Block k height width i j) s s') (s : Moves β) :
    ∃ s', k.blocks body ((c * height : Nat) : Int) ((w * (k.lanes * k.group) : Nat) : Int) s = some s' ∧
      Moved src (c * (w * (height * (k.lanes * k.group))))
        (fun x a => ∃ i < c, ∃ j < w, Block k height width i j x a)
        s s' := by
  have turnsC : turns ((c * height : Nat) : Int) k.lines = c := by
    rw [isLines]
    push_cast
    exact turns_mul (by omega)
  have turnsW : turns ((w * (k.lanes * k.group) : Nat) : Int) (k.lanes * k.group) = w := by
    push_cast
    exact turns_mul (by exact_mod_cast posV)
  rw [Kernel.blocks, turnsC, turnsW, isLines]
  refine loop_moved (by omega) (by exact_mod_cast fitC) (fun i lt r => ?_) s
  exact loop_moved (by positivity) (by exact_mod_cast fitW) (turn i lt) r

lemma packs_of_blocks {za : Fin 4 → Nat → Nat → Nat → β}
    (moved : Moved src (c * (w * (height * (k.lanes * k.group))))
      (fun x a => ∃ i < c, ∃ j < w, Block k height (w * (k.lanes * k.group)) i j x a) ⟨za, [], []⟩ s) :
    Packed.Packs height k.group (c * height) (w * (k.lanes * k.group)) src s.reads s.writes := by
  obtain ⟨R, W, reads, writes, numberR, numberW, all⟩ := moved
  rw [nil_append] at reads writes
  rw [reads, writes]
  have groups : k.group ∣ w * (k.lanes * k.group) := ⟨w * k.lanes, by ring⟩
  refine Packed.Packs.of ⟨c, Nat.mul_comm ..⟩ groups (numberW.trans (by ring)) (numberR.trans (by ring)) ?_
  intro m ltM n ltN
  obtain ⟨i, ltI, l, ltL, u, ltU, b, ltB, rfl, rfl⟩ :=
    Packed.exists_parts ⟨c, Nat.mul_comm ..⟩ groups ltM ltN
  rw [Nat.mul_div_cancel _ (by omega)] at ltI
  rw [show w * (k.lanes * k.group) = w * k.lanes * k.group by ring, Nat.mul_div_cancel _ (by omega)] at ltU
  have lanes : 0 < k.lanes := Nat.pos_of_mul_pos_left (Nat.zero_lt_of_lt ltU)
  have parts : u / k.lanes * k.lanes + u % k.lanes = u := Nat.div_add_mod' u k.lanes
  have at_ := all _ _ ⟨i, ltI, u / k.lanes, Nat.div_lt_of_lt_mul (by rwa [Nat.mul_comm]), l, ltL, u % k.lanes,
    Nat.mod_lt _ lanes, b, ltB, rfl, rfl⟩
  rw [parts] at at_
  rw [Packed.place_at ltL ltB]
  exact at_

lemma mapM_none {f : α → Option γ} {l : List α} {e : α} (mem : e ∈ l) (none : f e = none) :
    l.mapM f = .none := by
  induction l with
  | nil => cases mem
  | cons e' l ih =>
    rw [mapM_cons]
    obtain rfl | mem := mem_cons.1 mem
    · rw [none]
      rfl
    · rw [ih mem]
      cases f e' with
      | none | some _ => rfl

lemma Kernel.blocks_none (body : Int → Int → Moves β → Option (Moves β)) (isLines : k.lines = height)
    (posH : 0 < height) (posV : 0 < k.lanes * k.group) (ltI : i < c) (ltJ : j < w)
    (stuck : ∀ s, body ((i : Int) * height) (j * (k.lanes * k.group)) s = none) (s : Moves β) :
    k.blocks body ((c * height : Nat) : Int) ((w * (k.lanes * k.group) : Nat) : Int) s = none := by
  have turnsC : turns ((c * height : Nat) : Int) k.lines = c := by
    rw [isLines]
    push_cast
    exact turns_mul (by omega)
  have turnsW : turns ((w * (k.lanes * k.group) : Nat) : Int) (k.lanes * k.group) = w := by
    push_cast
    exact turns_mul (by exact_mod_cast posV)
  rw [Kernel.blocks, turnsC, turnsW, isLines]
  exact loop_none ltI (fun r => loop_none ltJ stuck r) s

/-! ### The loops over the slices -/

lemma sweep_hom {σ τ : Type} (part : σ → τ) (step : Fin 16 → Fin 4 → Int → σ → σ)
    (step' : Fin 16 → Fin 4 → Int → τ → τ)
    (same : ∀ t q a s, part (step t q a s) = step' t q a (part s)) (stride : Int) (n t : Nat)
    (tiles : List (Fin 4 × Int)) (s : σ) :
    part (sweep step stride n t tiles s) = sweep step' stride n t tiles (part s) := by
  induction n generalizing t tiles s with
  | zero => rfl
  | succ n ih =>
    rw [sweep, sweep, ih]
    congr 1
    exact (foldl_hom part fun s e => (same _ e.1 e.2 s).symm).symm

lemma sweep_append {γ : Type} (f : Fin 16 → Fin 4 → Int → List γ) (stride : Int) (n : Nat)
    (tiles : List (Fin 4 × Int))
    (acc : List γ) : sweep (fun t q a acc => acc ++ f t q a) stride n 0 tiles acc
      = acc ++ (List.range n).flatMap fun (u : Nat) => tiles.flatMap fun e =>
          f (Fin.ofNat 16 u) e.1 (e.2 + u * stride) := by
  simp only [sweep_eq, Nat.zero_add, foldl_append_eq_append]
  rfl

lemma sweep_writes {ι γ : Type} (f : ι → γ) (P : Nat → Fin 4 × Int → ι → Prop) (stride : Int) (n : Nat)
    (step : Fin 16 → Fin 4 → Int → (ι → γ) → ι → γ) (tiles : List (Fin 4 × Int))
    (turn : ∀ u < n, ∀ e ∈ tiles, ∀ m, Wrote f (P u e) m (step (Fin.ofNat 16 u) e.1 (e.2 + u * stride) m))
    (m : ι → γ) : Wrote f (fun x => ∃ u ∈ List.range n, ∃ e ∈ tiles, P u e x) m
    (sweep step stride n 0 tiles m) := by
  rw [sweep_eq]
  refine Wrote.foldl (S := fun u x => ∃ e ∈ tiles, P u e x) (fun u mem m => ?_) m
  rw [Nat.zero_add]
  exact Wrote.foldl (S := P u) (fun e inTiles m => turn u (mem_range.1 mem) e inTiles m) m

lemma sweep_same {σ : Type} (stride : Int) (n t : Nat) (tiles : List (Fin 4 × Int)) (s : σ) :
    sweep (fun _ _ _ s => s) stride n t tiles s = s := by
  rw [sweep_eq]
  simp only [foldl_fixed]

lemma length_flatMap_const {l : List α} {f : α → List γ} {n : Nat} (const : ∀ e ∈ l, (f e).length = n) :
    (l.flatMap f).length = l.length * n := by
  rw [length_flatMap, sum_eq_card_nsmul _ n (forall_mem_map.2 const), length_map]
  rfl

/-! ### A vector of every line -/

section Lines
variable [Zero β]

/-- All lanes take part, and there are as many slices as the array has at most. -/
structure Kernel.Full (k : Kernel) : Prop where
  active : k.active = k.lanes
  small : k.lanes ≤ 16

lemma Kernel.Full.loaded (full : k.Full) {parts : List (Fin 4 × Int)} {e : Fin 4 × Int} (mem : e ∈ parts)
    (one : ∀ e' ∈ parts, e'.1 = e.1 → e' = e) (s : Moves β) {r t b : Nat} (ltR : r < k.lanes)
    (ltT : t < k.lanes) :
    (sweep (k.load src) size k.lanes 0 parts s).za e.1 r t b = src (e.2 + r * size + k.group * t + b) := by
  have small := full.small
  have wrote := sweep_writes
    (fun y : Nat × Nat × Nat => if y.2.1 < k.active then src (e.2 + y.1 * size + k.group * y.2.1 + y.2.2) else 0)
    (fun u e' y => e.1 = e'.1 ∧ y.1 = u) size k.lanes
    (fun slice tile a za y => if e.1 = tile ∧ y.1 = slice then
      if y.2.1 < k.active then src (a + k.group * y.2.1 + y.2.2) else 0 else za y) parts
    (by
      intro u lt e' mem' m y
      have same : ((Fin.ofNat 16 u : Fin 16) : Nat) = u := Nat.mod_eq_of_lt (by omega)
      dsimp only
      rw [same]
      constructor
      · rintro ⟨tile, rfl⟩
        rw [if_pos ⟨tile, rfl⟩, one e' mem' tile.symm]
      · intro out
        rw [if_neg out])
    (fun y => s.za e.1 y.1 y.2.1 y.2.2)
  have part := sweep_hom (fun (s : Moves β) (y : Nat × Nat × Nat) => s.za e.1 y.1 y.2.1 y.2.2)
    (k.load src) (fun slice tile a za y => if e.1 = tile ∧ y.1 = slice then
      if y.2.1 < k.active then src (a + k.group * y.2.1 + y.2.2) else 0 else za y)
    (fun _ _ _ _ => rfl) size k.lanes 0 parts s
  have at_ := (wrote (r, t, b)).1 ⟨r, mem_range.2 ltR, e, mem, rfl, rfl⟩
  rw [← part] at at_
  dsimp only at at_
  rwa [if_pos (full.active ▸ ltT)] at at_

lemma Kernel.Full.moved (full : k.Full) (src : Int → β) (size : Int) (parts : List (Fin 4 × Int × Int))
    (one : ∀ e ∈ parts, ∀ e' ∈ parts, e'.1 = e.1 → e' = e) (stride : Int) (s : Moves β) :
    Moved src (k.lanes * (parts.length * (k.lanes * k.group)))
      (fun x a => ∃ e ∈ parts, ∃ t < k.lanes, ∃ r < k.lanes, ∃ b < k.group,
        x = e.2.2 + (t : Nat) * stride + k.group * (r : Nat) + (b : Nat) ∧
        a = e.2.1 + (r : Nat) * size + k.group * (t : Nat) + (b : Nat)) s
      (sweep k.store stride k.lanes 0 (parts.map fun e => (e.1, e.2.2))
        (sweep (k.load src) size k.lanes 0 (parts.map fun e => (e.1, e.2.1)) s)) := by
  have small := full.small
  have reads := sweep_hom Moves.reads (k.load src)
    (fun _ _ a w => w ++ (List.range (k.active * k.group)).map fun (i : Nat) => a + i) (fun _ _ _ _ => rfl) size
    k.lanes 0 (parts.map fun e => (e.1, e.2.1)) s
  have writes := sweep_hom Moves.writes (k.load src) (fun _ _ _ w => w) (fun _ _ _ _ => rfl) size k.lanes 0
    (parts.map fun e => (e.1, e.2.1)) s
  have za : ∀ e ∈ parts, ∀ t < k.lanes, ∀ r < k.lanes, ∀ b,
      (sweep (k.load src) size k.lanes 0 (parts.map fun e => (e.1, e.2.1)) s).za e.1 r t b
        = src (e.2.1 + r * size + k.group * t + b) := by
    intro e mem t ltT r ltR b
    have mem₁ : (e.1, e.2.1) ∈ parts.map fun e => (e.1, e.2.1) := mem_map.2 ⟨e, mem, rfl⟩
    refine full.loaded mem₁ (fun e' mem' same => ?_) s ltR ltT
    obtain ⟨e₁, mem₁, rfl⟩ := mem_map.1 mem'
    rw [one e mem e₁ mem₁ same]
  rw [sweep_append] at reads
  rw [sweep_same] at writes
  generalize sweep (k.load src) size k.lanes 0 (parts.map fun e => (e.1, e.2.1)) s = s₁ at reads writes za ⊢
  have stored := sweep_hom (fun w : List (Int × β) => { s₁ with writes := w })
    (fun slice tile a w => w ++ (List.range k.active).flatMap fun (r : Nat) =>
      (List.range k.group).map fun (b : Nat) => (a + k.group * r + b, s₁.za tile r slice b))
    k.store (fun _ _ _ _ => rfl) stride k.lanes 0 (parts.map fun e => (e.1, e.2.2)) s₁.writes
  rw [sweep_append] at stored
  rw [← stored]
  refine ⟨_, _, reads, by rw [writes], ?_, ?_, ?_⟩
  · rw [length_flatMap_const fun u _ => length_flatMap_const fun e _ => by rw [length_map, length_range],
      length_map, length_range, full.active]
  · rw [length_flatMap_const fun u _ => length_flatMap_const fun e _ => length_flatMap_const fun r _ => by
        rw [length_map, length_range],
      length_map, length_range, length_range, full.active]
  · rintro x a ⟨e, mem, t, ltT, r, ltR, b, ltB, rfl, rfl⟩
    have index : k.group * t + b < k.lanes * k.group := by
      calc k.group * t + b < k.group * (t + 1) := by
            rw [Nat.mul_succ]
            omega
        _ ≤ k.group * k.lanes := Nat.mul_le_mul_left _ ltT
        _ = k.lanes * k.group := Nat.mul_comm ..
    constructor
    · refine mem_flatMap.2 ⟨t, mem_range.2 ltT, mem_flatMap.2 ⟨(e.1, e.2.2), ?_, ?_⟩⟩
      · exact mem_map.2 ⟨e, mem, rfl⟩
      · have inLanes : r ∈ List.range k.active := mem_range.2 (full.active ▸ ltR)
        refine mem_flatMap.2 ⟨r, inLanes, mem_map.2 ⟨b, mem_range.2 ltB, ?_⟩⟩
        have slice : ((Fin.ofNat 16 t : Fin 16) : Nat) = t := Nat.mod_eq_of_lt (by omega)
        rw [slice, za e mem t ltT r ltR b]
    · refine mem_flatMap.2 ⟨r, mem_range.2 ltR, mem_flatMap.2 ⟨(e.1, e.2.1), ?_, ?_⟩⟩
      · exact mem_map.2 ⟨e, mem, rfl⟩
      · refine mem_map.2 ⟨k.group * t + b, mem_range.2 (full.active ▸ index), ?_⟩
        omega

/-! ### Blocks -/

/-- Each tile takes as many lines as there are lanes, and the tiles take all lines. -/
structure Kernel.Plain (k : Kernel) (height : Nat) : Prop extends k.Full where
  lines : k.lines = height
  one : ∀ e ∈ k.tiles, ∀ e' ∈ k.tiles, e'.1 = e.1 → e' = e
  line : ∀ e ∈ k.tiles, 0 ≤ e.2.1 ∧ e.2.1 + k.lanes ≤ height ∧ e.2.2 = e.2.1 * k.group
  all : ∀ l : Nat, l < height → ∃ e ∈ k.tiles, e.2.1 ≤ l ∧ l < e.2.1 + k.lanes
  number : k.tiles.length * k.lanes = height

lemma Kernel.Plain.dataSrc_some (plain : k.Plain height) (low : i * height + height < 2 ^ 31)
    (fits : (i * height + height - k.lanes) * width < 2 ^ 31) (tileK : Int) :
    k.tiles.mapM (dataSrc width ((i : Int) * height) tileK)
      = some (k.tiles.map fun e => (e.1, (i * height + e.2.1) * width + tileK)) := by
  refine mapM_some fun e mem => ?_
  obtain ⟨nonneg, within, -⟩ := plain.line e mem
  obtain ⟨tile, line, off⟩ := e
  dsimp only at nonneg within ⊢
  have first : (0 : Int) ≤ (i : Int) * height := Int.mul_nonneg (by omega) (by omega)
  have top : (i : Int) * height + height < 2 ^ 31 := by exact_mod_cast low
  have row : ((i : Int) * height + line) * width < 2 ^ 31 := by
    calc ((i : Int) * height + line) * width ≤ ((i * height + height - k.lanes : Nat) : Int) * width := by
          refine Int.mul_le_mul_of_nonneg_right ?_ (by omega)
          have sum : ((i * height + height : Nat) : Int) = (i : Int) * height + height := by push_cast; rfl
          omega
      _ < 2 ^ 31 := by exact_mod_cast fits
  have rowNonneg : 0 ≤ ((i : Int) * height + line) * width := Int.mul_nonneg (by omega) (by omega)
  rw [dataSrc, Word.add_eq (by constructor <;> omega)]
  simp only [Option.bind_eq_bind, Option.bind_some]
  rw [Word.mul_eq (by constructor <;> omega)]
  rfl

lemma dataDst_some {k : Kernel} (isLines : k.lines = height) {tileK : Nat} (block : i * height * width < 2 ^ 31)
    (place : tileK * height < 2 ^ 31) :
    dataDst k width ((i : Int) * height) tileK = some ((i * height * width + tileK * height : Nat) : Int) := by
  have first : Word.mul 32 ((i : Int) * height) width = some ((i * height * width : Nat) : Int) := by
    refine Word.mul_eq ⟨?_, by exact_mod_cast block⟩
    exact Int.le_trans (by norm_num) (Int.mul_nonneg (Int.mul_nonneg (by omega) (by omega)) (by omega))
  have second : Word.mul 32 tileK k.lines = some ((tileK * height : Nat) : Int) := by
    rw [isLines]
    refine Word.mul_eq ⟨?_, by exact_mod_cast place⟩
    exact Int.le_trans (by norm_num) (Int.mul_nonneg (by omega) (by omega))
  rw [dataDst, first]
  simp only [Option.bind_eq_bind, Option.bind_some, second]
  rfl

lemma Kernel.Plain.transBlock_moved (plain : k.Plain height) (low : i * height + height < 2 ^ 31)
    (fits : (i * height + height - k.lanes) * width < 2 ^ 31) (place : j * (k.lanes * k.group) * height < 2 ^ 31)
    (s : Moves β) :
    ∃ s', k.transBlock src width ((i : Int) * height) (j * (k.lanes * k.group)) s = some s' ∧
      Moved src (height * (k.lanes * k.group)) (Block k height width i j) s s' := by
  have block : i * height * width < 2 ^ 31 := by
    refine Nat.lt_of_le_of_lt (Nat.mul_le_mul_right _ ?_) fits
    by_cases zero : height = 0
    · rw [zero]
      omega
    · obtain ⟨e, mem, -⟩ := plain.all 0 (by omega)
      have := plain.line e mem
      omega
  have column : ((j : Int) * (k.lanes * k.group)) = ((j * (k.lanes * k.group) : Nat) : Int) := by push_cast; rfl
  rw [Kernel.transBlock, plain.dataSrc_some low fits, column]
  simp only [Option.bind_eq_bind, Option.bind_some, dataDst_some plain.lines block place]
  refine ⟨_, rfl, ?_⟩
  have parts := plain.moved src width (k.tiles.map fun e =>
    (e.1, (i * height + e.2.1) * width + (j * (k.lanes * k.group) : Nat),
      ((i * height * width + j * (k.lanes * k.group) * height : Nat) : Int) + e.2.2)) ?_ (k.lines * k.group) s
  · rw [map_map, map_map] at parts
    refine parts.mono ?_ ?_
    · rw [length_map, ← plain.number]
      ring
    · rintro x a ⟨l, ltL, t, ltT, b, ltB, rfl, rfl⟩
      obtain ⟨e, mem, from_, below⟩ := plain.all l ltL
      obtain ⟨nonneg, -, off⟩ := plain.line e mem
      have line : (((l - e.2.1).toNat : Nat) : Int) = l - e.2.1 := Int.toNat_of_nonneg (by omega)
      refine ⟨_, mem_map.2 ⟨e, mem, rfl⟩, t, ltT, (l - e.2.1).toNat, by omega, b, ltB, ?_, ?_⟩
      · rw [line, off, plain.lines]
        push_cast
        ring
      · rw [line]
        push_cast
        ring
  · intro e mem e' mem' same
    obtain ⟨e₁, mem₁, rfl⟩ := mem_map.1 mem
    obtain ⟨e₂, mem₂, rfl⟩ := mem_map.1 mem'
    rw [plain.one e₁ mem₁ e₂ mem₂ same]

/-- The moves of a vector of every line of one half of a block. -/
def Half (k : Kernel) (size i j h : Nat) (x a : Int) : Prop :=
  ∃ l < 16, ∃ t < k.lanes, ∃ b < k.group,
    x = ((i * 32 * size + (j * k.lanes + t) * k.group * 32 + (h * 16 + l) * k.group + b : Nat) : Int) ∧
    a = (((i * 32 + (h * 16 + l)) * size + ((j * k.lanes + t) * k.group + b) : Nat) : Int)

/-- A tile takes one half of the lines of a block. -/
structure Kernel.Halved (k : Kernel) : Prop extends k.Full where
  lines : k.lines = (32 : Nat)
  lanes : k.lanes = 16
  group : k.group = 2

lemma Kernel.Halved.transHalf_moved (halved : k.Halved) {h : Nat} (block : i * 32 * width < 2 ^ 31)
    (half : h * 16 * width < 2 ^ 31) (small : h < 2) (place : j * (k.lanes * k.group) * 32 < 2 ^ 31) (s : Moves β) :
    ∃ s', k.transHalf src width ((i : Int) * (32 : Nat)) (j * (k.lanes * k.group)) (h * 16) s = some s' ∧
      Moved src (k.lanes * (1 * (k.lanes * k.group))) (Half k width i j h) s s' := by
  have column : ((j : Int) * (k.lanes * k.group)) = ((j * (k.lanes * k.group) : Nat) : Int) := by push_cast; rfl
  have first : Word.mul 32 ((i : Int) * (32 : Nat)) width = some ((i * 32 * width : Nat) : Int) := by
    refine Word.mul_eq ⟨?_, by exact_mod_cast block⟩
    exact Int.le_trans (by norm_num) (Int.mul_nonneg (Int.mul_nonneg (by omega) (by omega)) (by omega))
  have second : Word.mul 32 ((h : Int) * 16) width = some ((h * 16 * width : Nat) : Int) := by
    refine Word.mul_eq ⟨?_, by exact_mod_cast half⟩
    exact Int.le_trans (by norm_num) (Int.mul_nonneg (Int.mul_nonneg (by omega) (by omega)) (by omega))
  have off : Word.mul 32 ((h : Int) * 16) 2 = some ((h : Int) * 16 * 2) :=
    Word.mul_eq (by constructor <;> norm_num <;> omega)
  rw [Kernel.transHalf, column]
  simp only [Option.bind_eq_bind, Option.bind_some, first, second, off, dataDst_some halved.lines block place]
  refine ⟨_, rfl, ?_⟩
  have part := halved.moved src width ([((0 : Fin 4),
    ((i * 32 * width : Nat) : Int) + ((h * 16 * width : Nat) : Int) + ((j * (k.lanes * k.group) : Nat) : Int),
      ((i * 32 * width + j * (k.lanes * k.group) * 32 : Nat) : Int) + (h : Int) * 16 * 2)]) ?_ (k.lines * k.group) s
  · refine part.mono rfl ?_
    rintro x a ⟨l, ltL, t, ltT, b, ltB, rfl, rfl⟩
    refine ⟨_, mem_singleton.2 rfl, t, ltT, l, halved.lanes ▸ ltL, b, ltB, ?_, ?_⟩
    · rw [halved.lines, halved.group]
      push_cast
      ring
    · push_cast
      ring
  · intro e mem e' mem' _
    rw [mem_singleton.1 mem, mem_singleton.1 mem']

lemma Kernel.Halved.halves_moved (halved : k.Halved) (block : i * 32 * width < 2 ^ 31) (half : 16 * width < 2 ^ 31)
    (place : j * (k.lanes * k.group) * 32 < 2 ^ 31) (s : Moves β) :
    ∃ s', loop 16 (k.transHalf src width ((i : Int) * (32 : Nat)) (j * (k.lanes * k.group))) (turns k.lines 16) 0 s
        = some s' ∧ Moved src (32 * (k.lanes * k.group)) (Block k 32 width i j) s s' := by
  have two : turns k.lines 16 = 2 := by
    rw [halved.lines]
    rfl
  have turn : ∀ h < 2, ∀ r, ∃ r', k.transHalf src width ((i : Int) * (32 : Nat)) (j * (k.lanes * k.group))
      ((h : Nat) * 16) r = some r' ∧ Moved src (k.lanes * (1 * (k.lanes * k.group))) (Half k width i j h) r r' := by
    intro h lt r
    have fits : h * 16 * width < 2 ^ 31 :=
      Nat.lt_of_le_of_lt (Nat.mul_le_mul_right _ (show h * 16 ≤ 16 by omega)) half
    exact halved.transHalf_moved block fits lt place r
  obtain ⟨s', run, moved⟩ := loop_moved (show (0 : Int) ≤ 16 by omega) (by norm_num) turn s
  refine ⟨s', by rw [two]; exact run, moved.mono ?_ ?_⟩
  · rw [halved.lanes]
    ring
  · rintro x a ⟨l, ltL, t, ltT, b, ltB, rfl, rfl⟩
    have parts : l / 16 * 16 + l % 16 = l := by omega
    refine ⟨l / 16, by omega, l % 16, by omega, t, ltT, b, ltB, ?_⟩
    rw [parts]
    exact ⟨rfl, rfl⟩

/-! ### The two kinds of kernels -/

/-- The products of a kernel with a tile for each part of the lines are values of the type. -/
def Kernel.FitsTrans (k : Kernel) (height count size : Nat) : Prop :=
  count = 0 ∨ size = 0 ∨ (count - k.lanes) * size < 2 ^ 31 ∧ (size - k.lanes * k.group) * height < 2 ^ 31

/-- The products of a kernel with one tile for each half of the lines are values of the type. -/
def Kernel.FitsHalves (k : Kernel) (count size : Nat) : Prop :=
  count = 0 ∨ size = 0 ∨ (count - 32) * size < 2 ^ 31 ∧ 16 * size < 2 ^ 31 ∧
    (size - k.lanes * k.group) * 32 < 2 ^ 31

variable {count size : Nat} {za : Fin 4 → Nat → Nat → Nat → β}

lemma dataDst_none {tileL tileK : Int} (past : 2 ^ 31 ≤ tileK * k.lines) : dataDst k size tileL tileK = none := by
  have big : Word.mul 32 tileK k.lines = none := by
    refine Word.checked_none fun fits => ?_
    have := fits.2
    norm_num at this
    omega
  rw [dataDst, big]
  cases Word.mul 32 tileL size with
  | none | some _ => rfl

lemma mul_none {a b : Nat} (past : 2 ^ 31 ≤ a * b) : Word.mul 32 a b = none := by
  refine Word.checked_none fun fits => ?_
  have := fits.2
  norm_num at this
  have big : (2147483648 : Int) ≤ (a : Int) * b := by exact_mod_cast past
  omega

section Overflows
variable {rows tileL tileK half : Int}

lemma transBlock_none (none : dataDst k rows tileL tileK = none) : k.transBlock src rows tileL tileK s = .none := by
  rw [Kernel.transBlock]
  cases k.tiles.mapM (dataSrc rows tileL tileK) with
  | none => rfl
  | some srcs =>
    simp only [Option.bind_eq_bind, Option.bind_some, none]
    rfl

lemma transHalf_none_half (none : Word.mul 32 half rows = none) : k.transHalf src rows tileL tileK half s = .none := by
  rw [Kernel.transHalf]
  cases Word.mul 32 tileL rows with
  | none => rfl
  | some block =>
    simp only [Option.bind_eq_bind, Option.bind_some, none]
    rfl

lemma transHalf_none_place (none : dataDst k rows tileL tileK = none) :
    k.transHalf src rows tileL tileK half s = .none := by
  rw [Kernel.transHalf]
  cases Word.mul 32 tileL rows with
  | none => rfl
  | some block =>
    cases Word.mul 32 half rows with
    | none => rfl
    | some lines =>
      simp only [Option.bind_eq_bind, Option.bind_some, none]
      rfl

end Overflows

lemma Kernel.Plain.copyTrans_iff (plain : k.Plain height) (posH : 0 < height) (posV : 0 < k.lanes * k.group)
    (blocks : height ∣ count) (vectors : k.lanes * k.group ∣ size) (fitC : count < 2 ^ 31) (fitS : size < 2 ^ 31) :
    (∃ s', k.copyTrans src count size ⟨za, [], []⟩ = some s' ∧
      Packed.Packs height k.group count size src s'.reads s'.writes) ↔ k.FitsTrans height count size := by
  obtain ⟨c, rfl⟩ := exists_eq_mul_left_of_dvd blocks
  obtain ⟨w, rfl⟩ := exists_eq_mul_left_of_dvd vectors
  constructor
  · rintro ⟨s', run, -⟩
    by_cases noC : c * height = 0
    · exact .inl noC
    by_cases noW : w * (k.lanes * k.group) = 0
    · exact .inr (.inl noW)
    have someC : 0 < c := Nat.pos_of_ne_zero fun zero => noC (by rw [zero, Nat.zero_mul])
    have someW : 0 < w := Nat.pos_of_ne_zero fun zero => noW (by rw [zero, Nat.zero_mul])
    refine .inr (.inr ⟨Nat.lt_of_not_le fun past => ?_, Nat.lt_of_not_le fun past => ?_⟩)
    · -- the last tile of the last block
      obtain ⟨e, mem, low, high⟩ := plain.all (height - 1) (by omega)
      obtain ⟨nonneg, within, -⟩ := plain.line e mem
      have stuck : ∀ s : Moves β, k.transBlock src (w * (k.lanes * k.group) : Nat) (((c - 1 : Nat) : Int) * height)
          ((0 : Nat) * (k.lanes * k.group)) s = none := by
        intro s
        have none : dataSrc (w * (k.lanes * k.group) : Nat) (((c - 1 : Nat) : Int) * height)
            ((0 : Nat) * (k.lanes * k.group)) e = none := by
          obtain ⟨tile, line, off⟩ := e
          dsimp only at low high nonneg within
          have last : c * height = (c - 1) * height + height := by
            rw [← Nat.succ_mul]
            congr 1
            omega
          have isLine : ((c - 1 : Nat) : Int) * height + line = ((c * height - k.lanes : Nat) : Int) := by
            have cast : (((c - 1) * height : Nat) : Int) = ((c - 1 : Nat) : Int) * height := by push_cast; rfl
            omega
          rw [dataSrc]
          cases added : Word.add 32 (((c - 1 : Nat) : Int) * height) line with
          | none => rfl
          | some first =>
            obtain ⟨-, rfl⟩ := Word.add_eq_some.1 added
            simp only [Option.bind_eq_bind, Option.bind_some]
            rw [isLine, mul_none past]
            rfl
        rw [Kernel.transBlock, mapM_none mem none]
        rfl
      rw [Kernel.copyTrans, Kernel.blocks_none _ plain.lines posH posV (by omega) someW stuck] at run
      cases run
    · have stuck : ∀ s : Moves β, k.transBlock src (w * (k.lanes * k.group) : Nat) (((0 : Nat) : Int) * height)
          ((w - 1 : Nat) * (k.lanes * k.group)) s = none := by
        intro s
        have none : dataDst k (w * (k.lanes * k.group) : Nat) (((0 : Nat) : Int) * height)
            ((w - 1 : Nat) * (k.lanes * k.group)) = none := by
          refine dataDst_none ?_
          have last : (w - 1) * (k.lanes * k.group) = w * (k.lanes * k.group) - k.lanes * k.group := by
            rw [Nat.sub_mul, Nat.one_mul]
          rw [plain.lines]
          rw [← last] at past
          exact_mod_cast past
        exact transBlock_none none
      rw [Kernel.copyTrans, Kernel.blocks_none _ plain.lines posH posV someC (by omega) stuck] at run
      cases run
  · intro fits
    have turn : ∀ i < c, ∀ j < w, ∀ s, ∃ s', k.transBlock src (w * (k.lanes * k.group) : Nat)
      ((i : Int) * height)
        (j * (k.lanes * k.group)) s = some s' ∧ Moved src (height * (k.lanes * k.group))
          (Block k height (w * (k.lanes * k.group)) i j) s s' := by
      intro i ltI j ltJ s
      have rows : i * height + height ≤ c * height := by
        rw [← Nat.succ_mul]
        exact Nat.mul_le_mul_right _ ltI
      have column : j * (k.lanes * k.group) + k.lanes * k.group ≤ w * (k.lanes * k.group) := by
        rw [← Nat.succ_mul]
        exact Nat.mul_le_mul_right _ ltJ
      obtain none | none | ⟨fitsRow, fitsPlace⟩ := fits
      · omega
      · omega
      · refine plain.transBlock_moved (by omega) (Nat.lt_of_le_of_lt (Nat.mul_le_mul_right _ ?_) fitsRow)
          (Nat.lt_of_le_of_lt (Nat.mul_le_mul_right _ ?_) fitsPlace) s
        · omega
        · omega
    obtain ⟨s', run, moved⟩ := Kernel.blocks_moved _ plain.lines fitC fitS posH posV turn ⟨za, [], []⟩
    exact ⟨s', run, packs_of_blocks moved⟩

lemma Kernel.Halved.copyHalves_iff (halved : k.Halved) (blocks : 32 ∣ count) (vectors : k.lanes * k.group ∣ size)
    (fitC : count < 2 ^ 31) (fitS : size < 2 ^ 31) :
    (∃ s', k.copyHalves src count size ⟨za, [], []⟩ = some s' ∧
      Packed.Packs 32 k.group count size src s'.reads s'.writes) ↔ k.FitsHalves count size := by
  have posV : 0 < k.lanes * k.group := by
    rw [halved.lanes, halved.group]
    decide
  have two : turns k.lines 16 = 2 := by
    rw [halved.lines]
    rfl
  obtain ⟨c, rfl⟩ := exists_eq_mul_left_of_dvd blocks
  obtain ⟨w, rfl⟩ := exists_eq_mul_left_of_dvd vectors
  constructor
  · rintro ⟨s', run, -⟩
    by_cases noC : c * 32 = 0
    · exact .inl noC
    by_cases noW : w * (k.lanes * k.group) = 0
    · exact .inr (.inl noW)
    have someW : 0 < w := Nat.pos_of_ne_zero fun zero => noW (by rw [zero, Nat.zero_mul])
    -- a half that overflows in a turn of the inner loops
    have stuck : ∀ i < c, ∀ j < w, ∀ h < 2, (∀ s : Moves β, k.transHalf src (w * (k.lanes * k.group) : Nat)
        ((i : Int) * (32 : Nat)) (j * (k.lanes * k.group)) ((h : Nat) * 16) s = none) → False := by
      intro i ltI j ltJ h small half
      have block : ∀ s : Moves β, loop 16 (k.transHalf src (w * (k.lanes * k.group) : Nat) ((i : Int) * (32 : Nat))
          (j * (k.lanes * k.group))) (turns k.lines 16) 0 s = none := by
        intro s
        rw [two]
        exact loop_none small half s
      rw [Kernel.copyHalves, Kernel.blocks_none _ halved.lines (by decide) posV ltI ltJ block] at run
      cases run
    refine .inr (.inr ⟨?_, ?_, ?_⟩)
    · refine Nat.lt_of_not_le fun past => stuck (c - 1) (by omega) 0 someW 0 (by omega) fun s => ?_
      have last : c * 32 - 32 = (c - 1) * 32 := by omega
      rw [last] at past
      rw [Kernel.transHalf, ← Nat.cast_mul, mul_none past]
      rfl
    · refine Nat.lt_of_not_le fun past => stuck 0 (by omega) 0 someW 1 (by omega) fun s => ?_
      have half : ((1 : Nat) : Int) * 16 = (16 : Nat) := by norm_num
      refine transHalf_none_half ?_
      rw [half]
      exact mul_none past
    · refine Nat.lt_of_not_le fun past => stuck 0 (by omega) (w - 1) (by omega) 0 (by omega) fun s => ?_
      have last : (w - 1) * (k.lanes * k.group) = w * (k.lanes * k.group) - k.lanes * k.group := by
        rw [Nat.sub_mul, Nat.one_mul]
      refine transHalf_none_place (dataDst_none ?_)
      rw [halved.lines]
      rw [← last] at past
      exact_mod_cast past
  · intro fits
    have turn : ∀ i < c, ∀ j < w, ∀ s, ∃ s', loop 16 (k.transHalf src (w * (k.lanes * k.group) : Nat)
        ((i : Int) * (32 : Nat)) (j * (k.lanes * k.group))) (turns k.lines 16) 0 s = some s' ∧
          Moved src (32 * (k.lanes * k.group)) (Block k 32 (w * (k.lanes * k.group)) i j) s s' := by
      intro i ltI j ltJ s
      have column : j * (k.lanes * k.group) + k.lanes * k.group ≤ w * (k.lanes * k.group) := by
        rw [← Nat.succ_mul]
        exact Nat.mul_le_mul_right _ ltJ
      obtain none | none | ⟨fitsRow, fitsHalf, fitsPlace⟩ := fits
      · omega
      · omega
      · refine halved.halves_moved (Nat.lt_of_le_of_lt (Nat.mul_le_mul_right _ ?_) fitsRow) fitsHalf
          (Nat.lt_of_le_of_lt (Nat.mul_le_mul_right _ ?_) fitsPlace) s
        · omega
        · omega
    obtain ⟨s', run, moved⟩ := Kernel.blocks_moved (fun tileL tileK => loop 16
      (k.transHalf src (w * (k.lanes * k.group) : Nat) tileL tileK) (turns k.lines 16) 0) halved.lines fitC fitS
      (by decide) posV turn ⟨za, [], []⟩
    exact ⟨s', run, packs_of_blocks moved⟩

end Lines

/-! ### The kernels for bytes -/

section Bytes
variable {kernel : Trans} {z : Za} {d : Int → Byte} {moves : Moves Byte} {tile : Fin 4} {slice : Fin 16} {a : Int}

/-- The array and the packed matrix after some moves. -/
structure Does (s : Za × (Int → Byte)) (moves : Moves Byte) : Prop where
  za : ∀ q (l c : Fin 16) (b : Fin 4), byte (s.1 (q, l, c)) b = moves.za q l c b
  data : (moves.writes.map Prod.fst).Nodup → ∀ w ∈ moves.writes, s.2 w.1 = w.2

lemma Does.load {src : Int → Byte} (D : Does (z, d) moves) :
    Does (svld1HorZa32 tile slice (svwhilelt 0 16) src a z, d)
      (Kernel.load ⟨kernel, 16, 4, 16⟩ src slice tile a moves) where
  za := by
    intro q l c b
    have all : svwhilelt 0 16 c = true := svwhilelt_all c
    by_cases on : q = tile ∧ l = slice
    · have here : q = tile ∧ (l : Nat) = slice := ⟨on.1, congrArg _ on.2⟩
      simp only [svld1HorZa32, Kernel.load, if_pos on, if_pos here, if_pos all]
      exact (byte_word src _ b).trans (if_pos c.isLt).symm
    · have off : ¬(q = tile ∧ (l : Nat) = slice) := fun is => on ⟨is.1, Fin.ext is.2⟩
      simp only [svld1HorZa32, Kernel.load, if_neg on, if_neg off]
      exact D.za q l c b
  data := D.data

lemma Does.store (D : Does (z, d) moves) : Does (z, svst1VerZa32 tile slice (svwhilelt 0 16) z a d)
    (Kernel.store ⟨kernel, 16, 4, 16⟩ slice tile a moves) where
  za := D.za
  data := by
    have wrote : Wrote (fun x => byte (z (tile, Fin.ofNat 16 ((x - a).toNat / 4), slice)) ((x - a).toNat % 4))
        (fun x => a ≤ x ∧ x < a + 64) d (svst1VerZa32 tile slice (svwhilelt 0 16) z a d) := by
      apply vertical_wrote
      intro l b
      have at_ : (a + 4 * ((l : Nat) : Int) + ((b : Nat) : Int) - a).toNat = 4 * l + b := by omega
      rw [at_, show (4 * (l : Nat) + b) / 4 = l by omega, show (4 * (l : Nat) + b) % 4 = b by omega,
        Fin.ofNat_val_eq_self]
    intro nodup w mem
    rw [Kernel.store, map_append] at nodup
    obtain ⟨before, -, apart⟩ := nodup_append.1 nodup
    rcases mem_append.1 mem with old | new
    · refine ((wrote w.1).2 ?_).trans (D.data before w old)
      rintro ⟨low, high⟩
      refine apart _ (mem_map_of_mem old) _ (mem_map_of_mem (mem_flatMap.2
        ⟨(w.1 - a).toNat / 4, mem_range.2 ?_, mem_map.2 ⟨(w.1 - a).toNat % 4, mem_range.2 ?_, rfl⟩⟩)) ?_
      · show _ < 16
        omega
      · show _ < 4
        omega
      · show w.1 = a + ((4 : Nat) : Int) * _ + _
        omega
    · obtain ⟨l, inTile, new⟩ := mem_flatMap.1 new
      obtain ⟨b, inWord, rfl⟩ := mem_map.1 new
      have ltL : l < 16 := mem_range.1 inTile
      have ltB : b < 4 := mem_range.1 inWord
      have at_ : (a + ((4 : Nat) : Int) * l + b - a).toNat = 4 * l + b := by omega
      refine ((wrote _).1 ?_).trans ?_
      · show a ≤ a + ((4 : Nat) : Int) * l + b ∧ a + ((4 : Nat) : Int) * l + b < a + 64
        omega
      · have isL : Fin.ofNat 16 l = ⟨l, ltL⟩ := Fin.ext (Nat.mod_eq_of_lt ltL)
        show byte (z (tile, Fin.ofNat 16 ((a + ((4 : Nat) : Int) * l + b - a).toNat / 4), slice))
          ((a + ((4 : Nat) : Int) * l + b - a).toNat % 4) = _
        rw [at_, show (4 * l + b) / 4 = l by omega, show (4 * l + b) % 4 = b by omega, isL]
        exact D.za tile ⟨l, ltL⟩ slice ⟨b, ltB⟩

lemma sweep_rel {σ τ : Type} {R : σ → τ → Prop} {f : Fin 16 → Fin 4 → Int → σ → σ}
    {g : Fin 16 → Fin 4 → Int → τ → τ}
    (turn : ∀ t q a s r, R s r → R (f t q a s) (g t q a r)) (stride : Int) (n t : Nat) (tiles : List (Fin 4 × Int))
    {s : σ} {r : τ} (both : R s r) : R (sweep f stride n t tiles s) (sweep g stride n t tiles r) := by
  rw [sweep_eq, sweep_eq]
  exact foldl_rel both fun u _ _ _ both => foldl_rel both fun e _ _ _ => turn _ _ _ _ _

lemma loop_rel {σ τ : Type} {R : σ → τ → Prop} {f : Int → σ → Option σ}
    {g : Int → τ → Option τ} {step : Int}
    (turn : ∀ i s r, R s r → Option.Rel R (f i s) (g i r)) (n : Nat) {i : Int} {s : σ} {r : τ} (both : R s r) :
    Option.Rel R (loop step f n i s) (loop step g n i r) := by
  induction n generalizing i s r with
  | zero => exact .some both
  | succ n ih =>
    have next := turn i s r both
    rw [loop, loop]
    generalize f i s = s', g i r = r' at next
    obtain both | _ := next
    · cases Word.add 32 i step with
      | none => exact .none
      | some i => exact ih both
    · exact .none

lemma transBlock_does {src : Int → Byte} {size tileL tileK : Int} (D : Does (z, d) moves) :
    Option.Rel Does (transBlock kernel src size tileL tileK (z, d))
      (Kernel.transBlock ⟨kernel, 16, 4, 16⟩ src size tileL tileK moves) := by
  dsimp only [transBlock, Kernel.transBlock, dataDst]
  cases kernel.tiles.mapM (dataSrc size tileL tileK) with
  | none => exact .none
  | some srcs =>
    have loaded := sweep_rel (R := fun z m => Does (z, d) m) (s := z) (r := moves)
      (f := fun t tile a za => svld1HorZa32 tile t (svwhilelt 0 16) src a za)
      (g := Kernel.load ⟨kernel, 16, 4, 16⟩ src)
      (fun _ _ _ _ _ D => D.load) size 16 0 srcs D
    cases Word.mul 32 tileL size with
    | none => exact .none
    | some block =>
      cases Word.mul 32 tileK kernel.lines with
      | none => exact .none
      | some place =>
        simp only [Option.bind_eq_bind, Option.bind_some, Option.pure_def, Nat.cast_ofNat]
        generalize sweep _ size 16 0 srcs z = z at loaded ⊢
        generalize sweep _ size 16 0 srcs moves = moves at loaded ⊢
        have stored := sweep_rel (R := fun d m => Does (z, d) m) (s := d) (r := moves)
          (f := fun t tile a d => svst1VerZa32 tile t (svwhilelt 0 16) z a d)
          (g := Kernel.store ⟨kernel, 16, 4, 16⟩)
          (fun _ _ _ _ _ D => D.store) (kernel.lines * 4) 16 0
          (kernel.tiles.map fun x => (x.1, block + place + x.2.2)) loaded
        exact .some stored

/-- The kernels for bytes do the moves of their lines. -/
lemma callCopyTrans_does (kernel : Trans) (dst src : Int → Byte) (count size : Int) (za : Za) :
    Option.Rel Does (callCopyTrans kernel dst src count size za)
      (Kernel.copyTrans ⟨kernel, 16, 4, 16⟩ src count size
      ⟨fun q l c b => byte (za (q, Fin.ofNat 16 l, Fin.ofNat 16 c)) b, [], []⟩) := by
  refine loop_rel (fun tileL s r both => loop_rel (fun tileK s r both => ?_) _ both) _ ⟨?_, fun _ _ => nofun⟩
  · obtain ⟨z, d⟩ := s
    exact transBlock_does both
  · intro q l c b
    dsimp only
    rw [Fin.ofNat_val_eq_self, Fin.ofNat_val_eq_self]

/-- A buffer has the lines of a matrix of bytes, packed. -/
def HasLines (height : Nat) (src : Int → Byte) (size : Nat) (buf : Int → Byte) : Prop :=
  ∀ l < height, ∀ x < size, buf (Packed.place height 4 size l x) = src (l * size + x)

variable {height n : Nat} {src : Int → Byte}

/-- The byte kernels pack the lines where the places fit. -/
lemma callCopyTrans_right (plain : Kernel.Plain ⟨kernel, 16, 4, 16⟩ height) (posH : 0 < height) (pos : 0 < n)
    (fits : n * 64 * height ≤ 2 ^ 31) (dst src : Int → Byte) (za : Za) :
    ∃ s, callCopyTrans kernel dst src kernel.lines (n * 64) za = some s ∧ HasLines height src (n * 64) s.2 := by
  have isLines : kernel.lines = height := plain.lines
  rw [isLines]
  have does := callCopyTrans_does kernel dst src height (n * 64 : Nat) za
  have wide : 16 ≤ height := by
    have number : kernel.tiles.length * 16 = height := plain.number
    omega
  have high : 64 * height ≤ n * 64 * height := Nat.mul_le_mul_right _ (by omega)
  have long : n * 64 * 16 ≤ n * 64 * height := Nat.mul_le_mul_left _ wide
  have fit : Kernel.FitsTrans ⟨kernel, 16, 4, 16⟩ height height (n * 64) := by
    refine .inr (.inr ⟨?_, ?_⟩)
    · show (height - 16) * (n * 64) < _
      rw [Nat.sub_mul, Nat.mul_comm height]
      omega
    · show (n * 64 - 64) * height < _
      rw [Nat.sub_mul]
      omega
  have vectors : 16 * 4 ∣ n * 64 := ⟨n, Nat.mul_comm ..⟩
  obtain ⟨moves, run, packs⟩ : ∃ moves, Kernel.copyTrans ⟨kernel, 16, 4, 16⟩ src height (n * 64 : Nat)
      ⟨fun q l c b => byte (za (q, Fin.ofNat 16 l, Fin.ofNat 16 c)) b, [], []⟩ = some moves ∧
        Packed.Packs height 4 height
        (n * 64) src moves.reads moves.writes :=
    (plain.copyTrans_iff posH (show 0 < 16 * 4 by decide) (Nat.dvd_refl _) vectors (by omega) (by omega)).2 fit
  rw [run] at does
  cases runs : callCopyTrans kernel dst src height (n * 64 : Nat) za with
  | none =>
    rw [runs] at does
    cases does
  | some s =>
    rw [runs] at does
    obtain D | _ := does
    push_cast at runs
    refine ⟨s, runs, fun l ltL x ltX => D.data ?_ _ (packs.moved l ltL x ltX)⟩
    rw [packs.written.nodup_iff]
    exact nodup_range.map fun _ _ eq => Int.ofNat_inj.1 eq

lemma callCopyTrans_none (isLines : kernel.lines = height) (posH : 0 < height) (pos : 0 < n)
    (big : 2 ^ 31 ≤ (n - 1) * 64 * height) (dst : Int → Byte) (za : Za) :
    callCopyTrans kernel dst src kernel.lines (n * 64) za = none := by
  have does := callCopyTrans_does kernel dst src (1 * height : Nat) (n * (16 * 4) : Nat) za
  have none : Kernel.copyTrans ⟨kernel, 16, 4, 16⟩ src (1 * height : Nat) (n * (16 * 4) : Nat)
      ⟨fun q l c b => byte (za (q, Fin.ofNat 16 l, Fin.ofNat 16 c)) b, [], []⟩ = .none := by
    refine Kernel.blocks_none _ isLines posH (show 0 < 16 * 4 by decide) Nat.zero_lt_one (show n - 1 < n by omega)
      (fun s => ?_) _
    refine transBlock_none (dataDst_none ?_)
    show 2 ^ 31 ≤ ((n - 1 : Nat) : Int) * (16 * 4) * kernel.lines
    rw [isLines]
    exact_mod_cast big
  rw [none] at does
  cases runs : callCopyTrans kernel dst src (1 * height : Nat) (n * (16 * 4) : Nat) za with
  | none =>
    push_cast at runs
    rwa [Int.one_mul, ← isLines] at runs
  | some s =>
    rw [runs] at does
    cases does

end Bytes

end Kupl.Mma
