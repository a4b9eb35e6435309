import RgspCast.Ui.Screens

/-!
# Home

One list: the service row, the pending clients, the paired ones, cut to the rows of the panel. The
cursor is an index into it, and the list is made anew from the state of each frame, so what `A` acts
on is the entry that the new list has in the cursor's row: `update_acts_on_drawn_iff` says when that
is the entry the last frame had highlighted. Within a frame the cursor, the rows and the hint agree
(`update_coherent`).
-/

namespace RgspCast.Ui

open RgspCast.Control (CastState PendingEntry PairedEntry)

/-! ## The source -/

inductive HomeAction where
  | none
  | toggle
  | pair (id : String)
  | unpair (fingerprint : String)
  | exit
  deriving DecidableEq, Repr

/-- `MAIN_ROW_COUNT`. -/
def mainRowCount : ℕ := 6

/-- How many pending rows are drawn, and how many paired rows. -/
def visibleRows (state : CastState) : ℕ × ℕ :=
  let budget := mainRowCount - 1
  let pending := min state.pending.length budget
  (pending, min state.paired.length (budget - pending))

def visibleRowCount (state : CastState) : ℕ :=
  let (pending, paired) := visibleRows state
  1 + pending + paired

structure Home where
  selected : ℕ
  deriving DecidableEq, Repr

/-- A row as `Ui::row` gets it. -/
structure Row where
  label : String
  value : Option String
  index : ℕ
  selected : Bool
  deriving DecidableEq, Repr

/-- What a frame of Home draws. -/
structure Drawing where
  header : String
  rows : List Row
  hints : List (String × String)
  deriving DecidableEq, Repr

namespace Home

def new : Home := ⟨0⟩

/-- The cursor is clamped to the rows that there are. -/
def clamp (home : Home) (rowCount : ℕ) : Home :=
  if home.selected ≥ rowCount then ⟨rowCount - 1⟩ else home

def move (home : Home) (buttons : Buttons) (rowCount : ℕ) : Home :=
  if buttons.down ∧ home.selected + 1 < rowCount then ⟨home.selected + 1⟩
  else if buttons.up ∧ home.selected > 0 then ⟨home.selected - 1⟩
  else home

/-- What `A` does; `none` where an index is out of range. -/
def act (home : Home) (state : CastState) : Option HomeAction :=
  let (pendingRows, _) := visibleRows state
  if home.selected = 0 then some .toggle
  else if home.selected ≤ pendingRows then
    state.pending[home.selected - 1]?.map fun p => .pair p.id
  else state.paired[home.selected - 1 - pendingRows]?.map fun p => .unpair p.fingerprint

/-- `none` where an index is out of range. -/
def update (home : Home) (buttons : Buttons) (state : CastState) : Option (HomeAction × Home) :=
  let rowCount := visibleRowCount state
  let home := home.clamp rowCount
  if buttons.b then some (.exit, home)
  else
    let home := home.move buttons rowCount
    if buttons.a then (home.act state).map (·, home) else some (.none, home)

def aHint (home : Home) (state : CastState) (connected : Bool) : String :=
  if home.selected = 0 then if connected then "Stop" else "Start"
  else
    let (pendingRows, _) := visibleRows state
    if home.selected ≤ pendingRows then "Pair" else "Unpair"

def statusText (state : CastState) (connected : Bool) : String :=
  if !connected then "Stopped"
  else if state.casting then
    match state.client with
    | some name => "Casting (" ++ name ++ ")"
    | none => "Casting"
  else "Running"

def draw (home : Home) (state : CastState) (connected : Bool) : Drawing :=
  let (pendingRows, pairedRows) := visibleRows state
  { header := "Cast"
    rows :=
      ⟨"Service", some (statusText state connected), 0, home.selected = 0⟩ ::
        ((state.pending.take pendingRows).mapIdx fun i entry =>
          ⟨clientLabel entry.name entry.address entry.id, none, i + 1, home.selected = i + 1⟩) ++
        ((state.paired.take pairedRows).mapIdx fun i entry =>
          let row := pendingRows + i + 1
          ⟨clientLabel entry.name entry.address entry.fingerprint, some "Paired", row,
            home.selected = row⟩)
    hints := [("A", home.aHint state connected), ("B", "Exit")] }

end Home

/-! ## The entries behind the rows -/

/-- What a row stands for. -/
inductive Entry where
  | service
  | pending (entry : PendingEntry)
  | paired (entry : PairedEntry)
  deriving DecidableEq, Repr

namespace Entry

/-- The action on an entry. It names the entry by its id or its fingerprint. -/
def action : Entry → HomeAction
  | service => .toggle
  | pending entry => .pair entry.id
  | paired entry => .unpair entry.fingerprint

def hint (connected : Bool) : Entry → String
  | service => if connected then "Stop" else "Start"
  | pending _ => "Pair"
  | paired _ => "Unpair"

/-- How an entry is drawn in a row. -/
def row (state : CastState) (connected : Bool) (index : ℕ) (selected : Bool) : Entry → Row
  | service => ⟨"Service", some (Home.statusText state connected), index, selected⟩
  | pending entry => ⟨clientLabel entry.name entry.address entry.id, none, index, selected⟩
  | paired entry =>
    ⟨clientLabel entry.name entry.address entry.fingerprint, some "Paired", index, selected⟩

end Entry

/-- The entries that have a row. -/
def shown (state : CastState) : List Entry :=
  .service :: ((state.pending.take (visibleRows state).1).map .pending ++
    (state.paired.take (visibleRows state).2).map .paired)

/-- As many rows are shown as there are. -/
theorem length_shown (state : CastState) : (shown state).length = visibleRowCount state := by
  simp only [shown, visibleRowCount, visibleRows, List.length_cons, List.length_append,
    List.length_map, List.length_take]
  omega

/-- No more pending rows than clients. -/
theorem fst_visibleRows_le (state : CastState) : (visibleRows state).1 ≤ state.pending.length :=
  Nat.min_le_left _ _

theorem mapIdx_map {α β γ : Type} (f : ℕ → β → γ) (g : α → β) (l : List α) :
    (l.map g).mapIdx f = l.mapIdx fun i a => f i (g a) := by
  apply List.ext_getElem?
  intro i
  rw [List.getElem?_mapIdx, List.getElem?_mapIdx, List.getElem?_map, Option.map_map]
  rfl

/-- `draw` draws the entries in their rows, and the cursor's row highlighted. -/
theorem draw_rows (home : Home) (state : CastState) (connected : Bool) :
    (home.draw state connected).rows =
      (shown state).mapIdx fun i e => e.row state connected i (home.selected = i) := by
  have hlength : (state.pending.take (visibleRows state).1).length = (visibleRows state).1 :=
    List.length_take_of_le (fst_visibleRows_le state)
  rw [shown, List.mapIdx_cons, List.mapIdx_append, mapIdx_map, mapIdx_map, List.length_map, hlength]
  refine congrArg (_ :: ·) (congrArg (_ ++ ·) (congrArg (List.mapIdx · _) ?_))
  funext i entry
  show Row.mk _ _ _ _ = Row.mk _ _ _ _
  rw [Nat.add_comm i]
  rfl

section Rows

variable {state : CastState} {i : ℕ}

/-- The rows of the pending clients come first. -/
theorem shown_of_le_pending (hpos : 0 < i) (hle : i ≤ (visibleRows state).1) :
    (shown state)[i]? = state.pending[i - 1]?.map .pending := by
  obtain ⟨i, rfl⟩ := Nat.exists_eq_succ_of_ne_zero (Nat.pos_iff_ne_zero.mp hpos)
  have hlength := List.length_take_of_le (fst_visibleRows_le state)
  rw [shown, List.getElem?_cons_succ, List.getElem?_append_left (by rw [List.length_map]; omega),
    List.getElem?_map, List.getElem?_take_of_lt hle]
  rfl

/-- Those of the paired clients come behind them. -/
theorem shown_of_gt_pending (hgt : (visibleRows state).1 < i) (hlt : i < visibleRowCount state) :
    (shown state)[i]? = state.paired[i - 1 - (visibleRows state).1]?.map .paired := by
  obtain ⟨i, rfl⟩ := Nat.exists_eq_succ_of_ne_zero (Nat.ne_of_gt (Nat.zero_lt_of_lt hgt))
  have hlength : ((state.pending.take (visibleRows state).1).map Entry.pending).length =
      (visibleRows state).1 := by
    rw [List.length_map, List.length_take_of_le (fst_visibleRows_le state)]
  have hlt' : i - (visibleRows state).1 < (visibleRows state).2 := by
    change _ < 1 + (visibleRows state).1 + (visibleRows state).2 at hlt
    omega
  rw [shown, List.getElem?_cons_succ, List.getElem?_append_right (by rw [hlength]; omega), hlength,
    List.getElem?_map, List.getElem?_take_of_lt hlt']
  rfl

end Rows

namespace Home

variable {home : Home} {state : CastState}

/-- On a row that is drawn, `A` is the action on its entry. -/
theorem act_eq (h : home.selected < visibleRowCount state) :
    home.act state = ((shown state)[home.selected]?).map Entry.action := by
  unfold act
  simp only
  split
  next hzero =>
    rw [hzero]
    rfl
  next hpos =>
    split
    next hle =>
      rw [shown_of_le_pending (Nat.pos_of_ne_zero hpos) hle, Option.map_map]
      rfl
    next hgt =>
      rw [shown_of_gt_pending (Nat.lt_of_not_le hgt) h, Option.map_map]
      rfl

/-- The hint bar names the action on the entry of the cursor's row. -/
theorem aHint_eq {e : Entry} (h : (shown state)[home.selected]? = some e) (connected : Bool) :
    home.aHint state connected = e.hint connected := by
  have hlt : home.selected < visibleRowCount state := by
    rw [← length_shown]
    exact (List.getElem?_eq_some_iff.mp h).1
  unfold aHint
  simp only
  split
  next hzero =>
    rw [hzero] at h
    obtain rfl := Option.some.inj h
    rfl
  next hpos =>
    split
    next hle =>
      rw [shown_of_le_pending (Nat.pos_of_ne_zero hpos) hle] at h
      obtain ⟨p, -, rfl⟩ := Option.map_eq_some_iff.mp h
      rfl
    next hgt =>
      rw [shown_of_gt_pending (Nat.lt_of_not_le hgt) hlt] at h
      obtain ⟨p, -, rfl⟩ := Option.map_eq_some_iff.mp h
      rfl

/-- The toggle is always there. -/
theorem visibleRowCount_pos (state : CastState) : 0 < visibleRowCount state := by
  show 0 < 1 + (visibleRows state).1 + (visibleRows state).2
  omega

theorem clamp_selected (home : Home) (n : ℕ) :
    (home.clamp n).selected = min home.selected (n - 1) := by
  unfold clamp
  split
  · show n - 1 = _
    omega
  · omega

/-- The clamped index is that of a row. -/
theorem clamp_lt (home : Home) {n : ℕ} (hn : 0 < n) : (home.clamp n).selected < n := by
  rw [clamp_selected]
  omega

/-- Moving stays among the rows. -/
theorem move_lt {n : ℕ} (buttons : Buttons) (h : home.selected < n) :
    (home.move buttons n).selected < n := by
  unfold move
  split
  next hdown => exact hdown.2
  next =>
    split
    · show home.selected - 1 < n
      omega
    · exact h

/-- The cursor after an update. -/
def moved (home : Home) (buttons : Buttons) (state : CastState) : Home :=
  let home := home.clamp (visibleRowCount state)
  if buttons.b then home else home.move buttons (visibleRowCount state)

/-- So does what a frame does to the index. -/
theorem moved_lt (home : Home) (buttons : Buttons) (state : CastState) :
    (home.moved buttons state).selected < visibleRowCount state := by
  have hclamp := home.clamp_lt (visibleRowCount_pos state)
  unfold moved
  split
  · exact hclamp
  · exact move_lt buttons hclamp

/-- **What an update returns**: `B` leaves, and `A` acts on the entry of the cursor's row. No index
is out of range. -/
theorem update_eq (home : Home) (buttons : Buttons) (state : CastState) :
    ∃ e, (shown state)[(home.moved buttons state).selected]? = some e ∧
      home.update buttons state =
        some (if buttons.b then .exit else if buttons.a then e.action else .none,
          home.moved buttons state) := by
  have hlt := home.moved_lt buttons state
  obtain ⟨e, he⟩ : ∃ e, (shown state)[(home.moved buttons state).selected]? = some e :=
    ⟨_, List.getElem?_eq_getElem (by rwa [length_shown])⟩
  have hact := act_eq hlt
  refine ⟨e, he, ?_⟩
  rw [he] at hact
  unfold update
  unfold moved at hact ⊢
  cases hb : buttons.b with
  | true => rfl
  | false =>
    rw [hb] at hact
    cases ha : buttons.a with
    | true => exact congrArg (Option.map _) hact
    | false => rfl

end Home

/-! ## Two frames -/

/-- Home as a frame draws it: after an update that does not leave it, or new, where another screen
was left. -/
inductive Drawn (state : CastState) : Home → Prop
  | new : Drawn state .new
  | updated {home home' : Home} {buttons : Buttons} {action : HomeAction} :
    home.update buttons state = some (action, home') → action = .none ∨ action = .toggle →
      Drawn state home'

/-- The row of an entry is drawn highlighted. -/
def Highlights (home : Home) (state : CastState) (connected : Bool) (e : Entry) : Prop :=
  ∃ (i : ℕ) (row : Row), (shown state)[i]? = some e ∧
    (home.draw state connected).rows[i]? = some row ∧ row.selected = true

/-- An action is the one on the entry that was drawn highlighted, and that the hint bar named. -/
def ActsOnDrawn (home : Home) (state : CastState) (connected : Bool) (action : HomeAction) : Prop :=
  ∃ e, Highlights home state connected e ∧
    ("A", e.hint connected) ∈ (home.draw state connected).hints ∧ action = e.action

section Frames

variable {home : Home} {state : CastState} {connected : Bool}

/-- The screen shows the selected row. -/
theorem Drawn.selected_lt (h : Drawn state home) : home.selected < visibleRowCount state := by
  cases h with
  | new => exact Home.visibleRowCount_pos state
  | @updated home _ buttons action hupdate _ =>
    obtain ⟨e, -, heq⟩ := home.update_eq buttons state
    obtain ⟨-, rfl⟩ := Prod.mk.inj (Option.some.inj (heq.symm.trans hupdate))
    exact home.moved_lt buttons state

/-- The highlighted entry is the one of the cursor's row. -/
theorem highlights_iff {e : Entry} :
    Highlights home state connected e ↔ (shown state)[home.selected]? = some e := by
  unfold Highlights
  rw [draw_rows]
  constructor
  · rintro ⟨i, row, he, hrow, hselected⟩
    rw [List.getElem?_mapIdx, he] at hrow
    obtain rfl := Option.some.inj hrow
    obtain rfl : home.selected = i := by
      cases e <;> exact of_decide_eq_true hselected
    exact he
  · intro he
    refine ⟨home.selected, e.row state connected home.selected true, he, ?_, by cases e <;> rfl⟩
    rw [List.getElem?_mapIdx, he]
    simp

/-- The action is that of the row that is shown. -/
theorem actsOnDrawn_iff {action : HomeAction} :
    ActsOnDrawn home state connected action ↔
      ((shown state)[home.selected]?).map Entry.action = some action := by
  rw [Option.map_eq_some_iff]
  refine exists_congr fun e => ?_
  rw [highlights_iff]
  refine and_congr_right fun he => ?_
  rw [eq_comm, and_iff_right]
  rw [← Home.aHint_eq he connected]
  exact List.mem_cons_self

end Frames

/-- The input of a frame in which only `A` fired. -/
def pressA : Buttons := { a := true }

/-- **`A` acts on what was drawn exactly where** the next state has the same entry in the cursor's
row, or in its last one if it has fewer. So it does where nothing changed from there up. -/
theorem update_acts_on_drawn_iff {state : CastState} {home : Home} (hdrawn : Drawn state home)
    (connected : Bool) (state' : CastState) :
    ∃ e' home', home.update pressA state' = some (e'.action, home') ∧
      (shown state')[min home.selected (visibleRowCount state' - 1)]? = some e' ∧
      (ActsOnDrawn home state connected e'.action ↔
        ∃ e, (shown state)[home.selected]? = some e ∧ e.action = e'.action) ∧
      ((shown state').take (home.selected + 1) = (shown state).take (home.selected + 1) →
        ActsOnDrawn home state connected e'.action) := by
  obtain ⟨e', he', hupdate⟩ := home.update_eq pressA state'
  have hcursor : (home.moved pressA state').selected =
      min home.selected (visibleRowCount state' - 1) :=
    home.clamp_selected (visibleRowCount state')
  rw [hcursor] at he'
  refine ⟨e', _, hupdate, he', ?_, fun htake => ?_⟩
  · rw [actsOnDrawn_iff, Option.map_eq_some_iff]
  · -- the next state has the cursor's row too
    have hlt := hdrawn.selected_lt
    have hlength := congrArg List.length htake
    rw [List.length_take, List.length_take, length_shown, length_shown] at hlength
    have hrow : (shown state')[home.selected]? = (shown state)[home.selected]? := by
      rw [← List.getElem?_take_of_lt (Nat.lt_succ_self home.selected), htake,
        List.getElem?_take_of_lt (Nat.lt_succ_self home.selected)]
    rw [Nat.min_eq_left (by omega), hrow] at he'
    rw [actsOnDrawn_iff, he']
    rfl

def onePaired : CastState := ⟨false, none, [], [⟨"f0", none, none⟩]⟩

def twoPaired : CastState := ⟨false, none, [], [⟨"f0", none, none⟩, ⟨"f1", none, none⟩]⟩

/-- A client that is paired below the cursor changes nothing. -/
theorem update_acts_on_drawn_below :
    ∃ home', Home.update ⟨1⟩ pressA twoPaired = some (.unpair "f0", home') ∧
      ActsOnDrawn ⟨1⟩ onePaired true (.unpair "f0") := by
  have hdrawn : Drawn onePaired ⟨1⟩ :=
    @Drawn.updated onePaired .new ⟨1⟩ { down := true } .none rfl (Or.inl rfl)
  obtain ⟨e', home', hupdate, he', -, hbelow⟩ :=
    @update_acts_on_drawn_iff onePaired ⟨1⟩ hdrawn true twoPaired
  obtain rfl := Option.some.inj he'
  exact ⟨home', hupdate, hbelow rfl⟩

/-- The first of two paired clients is highlighted, and unpaired from elsewhere: `A` is for the
other one. -/
theorem not_update_acts_on_drawn :
    ¬ ∀ (state : CastState) (home : Home), Drawn state home →
      ∀ (connected : Bool) (state' : CastState) (action : HomeAction) (home' : Home),
        home.update pressA state' = some (action, home') →
          action = .none ∨ ActsOnDrawn home state connected action := by
  intro hall
  have hdrawn : Drawn twoPaired ⟨1⟩ :=
    @Drawn.updated twoPaired .new ⟨1⟩ { down := true } .none rfl (Or.inl rfl)
  rcases hall twoPaired ⟨1⟩ hdrawn true { twoPaired with paired := [⟨"f1", none, none⟩] } _ _ rfl
    with h | h
  · cases h
  · rw [actsOnDrawn_iff] at h
    exact absurd h (by decide)

/-! ## Any sequence of frames -/

/-- The budget of the list is the rows of the panel. -/
theorem visibleRowCount_le (state : CastState) : visibleRowCount state ≤ mainRowCount := by
  have hpaired : (visibleRows state).2 ≤ mainRowCount - 1 - (visibleRows state).1 :=
    Nat.min_le_right _ _
  have hpending : (visibleRows state).1 ≤ mainRowCount - 1 := Nat.min_le_right _ _
  have hpos : 1 ≤ mainRowCount := by decide
  show 1 + (visibleRows state).1 + (visibleRows state).2 ≤ mainRowCount
  omega

/-- Where only index `i` has a property, the list keeps its element there. -/
theorem filter_mapIdx {α β : Type} {l : List α} {i : ℕ} {a : α} (h : l[i]? = some a)
    {f : ℕ → α → β} {p : β → Bool} (hp : ∀ j x, p (f j x) = decide (i = j)) :
    (l.mapIdx f).filter p = [f i a] := by
  induction l generalizing i f with
  | nil => cases h
  | cons x l ih =>
    rw [List.mapIdx_cons, List.filter_cons, hp]
    cases i with
    | zero =>
      obtain rfl := Option.some.inj h
      rw [if_pos (decide_eq_true rfl), List.filter_eq_nil_iff.mpr]
      intro b hb
      obtain ⟨j, hj, rfl⟩ := List.mem_mapIdx.mp hb
      rw [hp]
      exact of_decide_eq_false rfl
    | succ i =>
      rw [if_neg (by simp)]
      exact ih h fun j y => (hp (j + 1) y).trans (decide_eq_decide.mpr Nat.succ_inj)

/-- Exactly one row is drawn highlighted: that of the entry in the cursor's row. -/
theorem filter_draw_rows {home : Home} {state : CastState} {e : Entry}
    (h : (shown state)[home.selected]? = some e) (connected : Bool) :
    (home.draw state connected).rows.filter (·.selected) =
      [e.row state connected home.selected true] := by
  rw [draw_rows, filter_mapIdx h]
  · rw [decide_eq_true rfl]
  · intro j x
    cases x <;> rfl

/-- The cursor after a sequence of frames; `none` as soon as an index is out of range. -/
def Home.updates (home : Home) : List (CastState × Buttons) → Option Home
  | [] => some home
  | (state, buttons) :: frames =>
    (home.update buttons state).bind fun (_, home) => home.updates frames

/-- No sequence of frames gets stuck. -/
theorem Home.updates_isSome (home : Home) (frames : List (CastState × Buttons)) :
    ∃ home', home.updates frames = some home' := by
  induction frames generalizing home with
  | nil => exact ⟨home, rfl⟩
  | cons frame frames ih =>
    obtain ⟨state, buttons⟩ := frame
    obtain ⟨e, -, hupdate⟩ := home.update_eq buttons state
    rw [Home.updates, hupdate]
    exact ih _

/-- **The cursor, the rows and the hint agree after every update**, over any sequence of states and
inputs. No index is out of range; the cursor is on a row of the panel; exactly one row is drawn
highlighted; and `A`, without `B`, acts on the entry of that row, as the hint says. -/
theorem update_coherent (frames : List (CastState × Buttons)) (state : CastState)
    (buttons : Buttons) (connected : Bool) :
    ∃ home action home' e, Home.new.updates frames = some home ∧
      home.update buttons state = some (action, home') ∧
      home'.selected < visibleRowCount state ∧ visibleRowCount state ≤ mainRowCount ∧
      (home'.draw state connected).rows.filter (·.selected) =
        [e.row state connected home'.selected true] ∧
      Highlights home' state connected e ∧
      action = (if buttons.b then .exit else if buttons.a then e.action else .none) ∧
      home'.aHint state connected = e.hint connected := by
  obtain ⟨home, hhome⟩ := Home.new.updates_isSome frames
  obtain ⟨e, he, hupdate⟩ := home.update_eq buttons state
  exact ⟨home, _, _, e, hhome, hupdate, home.moved_lt buttons state, visibleRowCount_le state,
    filter_draw_rows he connected, highlights_iff.mpr he, rfl, Home.aHint_eq he connected⟩

end RgspCast.Ui
