/-
  File:      ConsensFlow/Invariants.lean
  Subject:   WHAT EVERY EDIT OF THE BOARD KEEPS. Each invariant is shown once, of one edit, and
             holds then along every chain of edits, whichever call made it.

  * `Edit.wired` -- the cards, the plan and the staff go on fitting together;
  * `Edit.acyclic` -- no edit closes a circle of the plan;
  * `Edit.oneAtWork` -- a window has one task at work, where its doors find it free;
  * `Edit.needsMet`, `Edit.stranded` -- nothing comes into a window before what it needs, and what
    waits for a cancelled card is told once;
  * `Edit.settles`, `Edit.decided` -- nothing ready is left on the board, and nothing is taken
    before a decision.
-/
import ConsensFlow.Board

namespace ConsensFlow

open Lib Board

/-! ## 1. The board after an edit -/

section Put

variable {b : Board} {c c' x : Card} {t u w : Nat} {ph : Phase}

/-- The cards after one was put in the place of `c`. -/
theorem Board.mem_put (hc : c ∈ b.cards) (e : c'.id = c.id) :
    x ∈ (b.put c').cards ↔ x = c' ∨ (x ∈ b.cards ∧ x.id ≠ c.id) := by
  unfold Board.put
  rw [List.mem_map]
  constructor
  · rintro ⟨y, hy, rfl⟩
    by_cases h : y.id = c'.id
    · rw [if_pos h]
      exact Or.inl rfl
    · rw [if_neg h]
      exact Or.inr ⟨hy, e ▸ h⟩
  · rintro (rfl | ⟨hx, hne⟩)
    · exact ⟨c, hc, if_pos e.symm⟩
    · exact ⟨x, hx, if_neg (e ▸ hne)⟩

theorem Board.map_put {α : Type} (f : Card → α) (hf : ∀ y ∈ b.cards, y.id = c'.id → f c' = f y) :
    (b.put c').cards.map f = b.cards.map f := by
  unfold Board.put
  rw [List.map_map]
  refine List.map_congr_left fun y hy => ?_
  by_cases h : y.id = c'.id
  · simp only [Function.comp_apply, if_pos h]
    exact hf y hy h
  · simp only [Function.comp_apply, if_neg h]

/-- Two cards of one task are one card. -/
theorem Wired.unique (hw : Wired b) (hx : x ∈ b.cards) (hc : c ∈ b.cards) (e : x.id = c.id) :
    x = c := List.inj_on_of_nodup_map hw.ids hx hc e

theorem Wired.is_iff (hw : Wired b) (hc : c ∈ b.cards) : b.Is c.id ph ↔ c.phase = ph := by
  constructor
  · rintro ⟨x, hx, e, hp⟩
    rw [← hw.unique hx hc e]
    exact hp
  · exact fun h => ⟨c, hc, rfl, h⟩

theorem Board.is_put (hc : c ∈ b.cards) (e : c'.id = c.id) :
    (b.put c').Is t ph ↔ (t = c.id ∧ c'.phase = ph) ∨ (t ≠ c.id ∧ b.Is t ph) := by
  constructor
  · rintro ⟨x, hx, rfl, hp⟩
    rcases (mem_put hc e).mp hx with rfl | ⟨hx, hne⟩
    · exact Or.inl ⟨e, hp⟩
    · exact Or.inr ⟨hne, x, hx, rfl, hp⟩
  · rintro (⟨rfl, hp⟩ | ⟨hne, x, hx, rfl, hp⟩)
    · exact ⟨c', (mem_put hc e).mpr (Or.inl rfl), e, hp⟩
    · exact ⟨x, (mem_put hc e).mpr (Or.inr ⟨hx, hne⟩), rfl, hp⟩

/-- What was met stays met while no card leaves `accepted`. -/
theorem Wired.met_put (hw : Wired b) (hc : c ∈ b.cards) (e : c'.id = c.id)
    (hs : c.phase = .accepted → c'.phase = .accepted) (h : b.Met u) : (b.put c').Met u := by
  intro n hm
  rw [is_put hc e]
  by_cases hn : n = c.id
  · have ha := h n hm
    rw [hn, hw.is_iff hc] at ha
    exact Or.inl ⟨hn, hs ha⟩
  · exact Or.inr ⟨hn, h n hm⟩

end Put

/-- What no move of a card changes, and that an accepted card stays so. -/
structure Shifted (c c' : Card) : Prop where
  id : c'.id = c.id
  project : c'.project = c.project
  number : c'.number = c.number
  pool : c'.pool = c.pool
  stays : c.phase = .accepted → c'.phase = .accepted

theorem Shift.shifted {L : Licence} {b : Board} {d d' : Debt} {c c' : Card}
    (h : Shift L b d c d' c') : Shifted c c' := by
  have no : ∀ {ph : Phase}, c.phase = ph → ph ≠ .accepted → c.phase = .accepted →
      c'.phase = .accepted := fun h1 h2 h3 => absurd (h1.symm.trans h3) h2
  cases h with
  | enter door w ho hl hu hr =>
    refine ⟨rfl, rfl, rfl, rfl, fun ha => ?_⟩
    cases door <;> simp [Door.Opens, ha] at ho
  | paused u p n hc hu hp hm =>
    refine ⟨rfl, rfl, rfl, rfl, fun ha => ?_⟩
    simp [Phase.waits, ha] at hc
  | finished hc hd hm hu =>
    refine ⟨rfl, rfl, rfl, rfl, fun ha => ?_⟩
    simp [Phase.inHand, ha] at hc
  | accepted hc hu => exact ⟨rfl, rfl, rfl, rfl, fun _ => rfl⟩
  | failed hc hu =>
    refine ⟨rfl, rfl, rfl, rfl, fun ha => ?_⟩
    simp [ha] at hc
  | cancelled hc hu => exact ⟨rfl, rfl, rfl, rfl, fun ha => absurd ha hc⟩
  | shelved hc =>
    refine ⟨rfl, rfl, rfl, rfl, fun ha => ?_⟩
    simp [Phase.inHand, ha] at hc
  | unpaused hc hw hu =>
    obtain ⟨u, p, hp⟩ := hc
    exact ⟨rfl, rfl, rfl, rfl, no hp (by simp)⟩
  | deleted hc hn hu => exact ⟨rfl, rfl, rfl, rfl, id⟩

/-! ## 2. The cards, the plan and the staff fit together -/

/-- What a move leaves of a card's window, of its phase and of its deletion. -/
structure Fits (b : Board) (c c' : Card) : Prop where
  window : ∀ w, c'.assignee = some w → b.Seated w c.project
  here : c'.phase = .opened → ∀ w, c'.assignee = some w → ¬ b.Left w
  taken : c'.phase = .held ∨ (∃ p, c'.phase = .paused true p) → c'.assignee.isSome = true
  deleted : c'.deleted = true → c'.phase.finished = true

theorem Wired.kept_of (hw : Wired b) {c : Card} (hc : c ∈ b.cards) (h : c.phase.finished = false) :
    c.deleted = false := by
  cases hd : c.deleted with
  | false => rfl
  | true => simp [hw.deleted c hc hd] at h

/-- A card comes only into a window of its own project. -/
theorem Door.Opens.seated {b : Board} {c : Card} {w : Nat} {door : Door} (hw : Wired b)
    (hc : c ∈ b.cards) (h : door.Opens b c w) : b.Seated w c.project := by
  have own : c.assignee = some w → b.Seated w c.project := hw.windows c hc w
  cases door with
  | released => exact own h.2.1
  | assigned => exact h.2.1
  | resumed => exact own h.2.1
  | reopened => exact own h.2.1
  | wentOn => exact own h.2
  | relaunched => exact own h.2.1
  | withProject => exact own h.2.1
  | named => exact h.elim

/-- A card that comes into a window was not deleted. -/
theorem Door.Opens.undeleted {b : Board} {c : Card} {w : Nat} {door : Door} (hw : Wired b)
    (hc : c ∈ b.cards) (h : door.Opens b c w) : c.deleted = false := by
  have pausedKept : (∃ u p, c.phase = .paused u p) → c.deleted = false := by
    rintro ⟨u, p, e⟩
    exact hw.kept_of hc (by rw [e]; rfl)
  cases door with
  | released => exact hw.kept_of hc (by rw [h.1]; rfl)
  | assigned => exact hw.kept_of hc (by rw [h.1]; rfl)
  | resumed => exact pausedKept h.1
  | reopened => exact h.2.2.1
  | wentOn => exact pausedKept (h.1.elim fun p e => ⟨true, p, e⟩)
  | relaunched => exact pausedKept h.1
  | withProject => exact pausedKept (h.1.elim fun u e => ⟨u, true, e⟩)
  | named => exact h.elim

theorem Shift.fits {L : Licence} {b : Board} {d d' : Debt} {c c' : Card} (hw : Wired b)
    (hc : c ∈ b.cards) (h : Shift L b d c d' c') : Fits b c c' := by
  have own := hw.windows c hc
  cases h with
  | enter door w ho hl hu hr =>
    refine ⟨fun v hv => ?_, nofun, fun _ => rfl, fun k => ?_⟩
    · cases hv
      exact ho.seated hw hc
    · rw [ho.undeleted hw hc] at k
      cases k
  | paused u p n hp hu hf hm =>
    refine ⟨own, nofun, fun k => ?_, fun k => ?_⟩
    · obtain k | ⟨p', k⟩ := k
      · cases k
      · cases k
        exact hw.taken c hc (hu rfl)
    · have hf : c.phase.finished = false := by
        rcases hp with hp | hp
        · cases e : c.phase <;> simp [e, Phase.waits] at hp <;> rfl
        · rw [hp]
          rfl
      rw [hw.kept_of hc hf] at k
      cases k
  | finished hp hd hm hu =>
    refine ⟨own, nofun, fun k => ?_, fun k => ?_⟩
    · obtain k | ⟨p', k⟩ := k <;> cases k
    · rw [hd] at k
      cases k
  | accepted hp hu =>
    refine ⟨own, nofun, fun k => ?_, fun _ => rfl⟩
    obtain k | ⟨p', k⟩ := k <;> cases k
  | failed hp hu =>
    refine ⟨own, nofun, fun k => ?_, fun _ => rfl⟩
    obtain k | ⟨p', k⟩ := k <;> cases k
  | cancelled hp hu =>
    refine ⟨own, nofun, fun k => ?_, fun _ => rfl⟩
    obtain k | ⟨p', k⟩ := k <;> cases k
  | shelved hp =>
    refine ⟨nofun, nofun, fun k => ?_, fun k => ?_⟩
    · obtain k | ⟨p', k⟩ := k <;> cases k
    · have hf : c.phase.finished = false := by
        cases e : c.phase <;> simp [e, Phase.inHand] at hp <;> rfl
      rw [hw.kept_of hc hf] at k
      cases k
  | unpaused hp hl hu =>
    obtain ⟨u, p, e⟩ := hp
    refine ⟨nofun, nofun, fun k => ?_, fun k => ?_⟩
    · obtain k | ⟨p', k⟩ := k <;> cases k
    · rw [hw.kept_of hc (by rw [e]; rfl)] at k
      cases k
  | deleted hp hn hu =>
    exact ⟨own, hw.here c hc, hw.taken c hc, fun _ => hp⟩

/-- A card that stays as it is fits where it is. -/
theorem Wired.fits_self {b : Board} {c : Card} (hw : Wired b) (hc : c ∈ b.cards) : Fits b c c :=
  ⟨hw.windows c hc, hw.here c hc, hw.taken c hc, hw.deleted c hc⟩

/-- Cards that each move so go on fitting together. -/
theorem Wired.recard {b : Board} {g : Card → Card} (hw : Wired b)
    (hg : ∀ c ∈ b.cards, Shifted c (g c) ∧ Fits b c (g c)) :
    Wired { b with cards := b.cards.map g } := by
  have back : ∀ {x}, x ∈ b.cards.map g → ∃ y ∈ b.cards, g y = x := List.mem_map.mp
  have forth : ∀ {y}, y ∈ b.cards → g y ∈ b.cards.map g := List.mem_map_of_mem
  refine ⟨?_, fun x hx y hy hp hn => ?_, fun e he => ?_, fun x hx => ?_, hw.chiefs,
    fun x hx v hv => ?_, fun x hx => ?_, fun x hx => ?_, fun x hx => ?_,
    fun e he => ?_, fun x hx r hr => ?_, hw.sessions, hw.members, fun x hx => ?_⟩
  · have e : (b.cards.map g).map Card.id = b.cards.map Card.id := by
      rw [List.map_map]
      exact List.map_congr_left fun c hc => (hg c hc).1.id
    exact e ▸ hw.ids
  · obtain ⟨x, hxb, rfl⟩ := back hx
    obtain ⟨y, hyb, rfl⟩ := back hy
    have sx := (hg x hxb).1
    have sy := (hg y hyb).1
    rw [sx.id, sy.id]
    rw [sx.project, sy.project] at hp
    rw [sx.number, sy.number] at hn
    exact hw.numbers x hxb y hyb hp hn
  · obtain ⟨x, hx, y, hy, ex, ey, hp⟩ := hw.edges e he
    have sx := (hg x hx).1
    have sy := (hg y hy).1
    refine ⟨g x, forth hx, g y, forth hy, sx.id.trans ex, sy.id.trans ey, ?_⟩
    rw [sx.project, sy.project, hp]
  · obtain ⟨x, hxb, rfl⟩ := back hx
    rw [(hg x hxb).1.project]
    exact hw.projects x hxb
  · obtain ⟨x, hxb, rfl⟩ := back hx
    rw [(hg x hxb).1.project]
    exact (hg x hxb).2.window v hv
  · obtain ⟨x, hxb, rfl⟩ := back hx
    exact (hg x hxb).2.here
  · obtain ⟨x, hxb, rfl⟩ := back hx
    exact (hg x hxb).2.taken
  · obtain ⟨x, hxb, rfl⟩ := back hx
    exact (hg x hxb).2.deleted
  · obtain ⟨⟨y, hy, ey⟩, hp⟩ := hw.briefs e he
    exact ⟨⟨g y, forth hy, (hg y hy).1.id.trans ey⟩, hp⟩
  · obtain ⟨x, hxb, rfl⟩ := back hx
    rw [(hg x hxb).1.pool] at hr
    exact hw.pools x hxb r hr
  · obtain ⟨x, hxb, rfl⟩ := back hx
    rw [(hg x hxb).1.number]
    exact hw.counted x hxb

theorem Shifted.refl (c : Card) : Shifted c c := ⟨rfl, rfl, rfl, rfl, fun h => h⟩

theorem Wired.put {b : Board} {c c' : Card} (hw : Wired b) (hc : c ∈ b.cards) (hs : Shifted c c')
    (hf : Fits b c c') : Wired (b.put c') := by
  refine hw.recard fun x hx => ?_
  by_cases e : x.id = c'.id
  · rw [if_pos e, hw.unique hx hc (e.trans hs.id)]
    exact ⟨hs, hf⟩
  · rw [if_neg e]
    exact ⟨Shifted.refl x, hw.fits_self hx⟩

/-- A card that leaves with its window is neither accepted nor over. -/
theorem Board.leaves_phase {ws : List Nat} {c : Card} (h : Board.leaves ws c = true) :
    c.phase = .opened ∨ c.phase = .held := by
  simp only [Board.leaves, Bool.and_eq_true, Bool.or_eq_true, beq_iff_eq] at h
  exact h.2

theorem Wired.dismiss {b : Board} (hw : Wired b) (ws : List Nat) : Wired (b.dismiss ws) := by
  refine hw.recard fun x hx => ?_
  split
  · next h =>
    refine ⟨⟨rfl, rfl, rfl, rfl, fun ha => ?_⟩, hw.windows x hx, nofun, ?_, fun _ => rfl⟩
    · rcases Board.leaves_phase h with e | e <;> simp [e] at ha
    · rintro (k | ⟨p, k⟩) <;> cases k
  · exact ⟨Shifted.refl x, hw.fits_self hx⟩

theorem Wired.restaff {b b' : Board} (hw : Wired b) (h : Restaffed b b') : Wired b' := by
  have seated : ∀ {w p}, b.Seated w p → b'.Seated w p := by
    rintro w p ⟨q, hq, rfl, rfl⟩
    obtain ⟨q', hq', e, ep, -⟩ := h.stay q hq
    exact ⟨q', hq', e, ep⟩
  refine ⟨?_, ?_, ?_, fun c hc => ?_, h.chiefs hw.chiefs, fun c hc w hw' => ?_,
    fun c hc ho w hw' => ?_, ?_, ?_, fun e he => ?_, ?_, fun p hp hm => ?_, fun p hp m hm => ?_, ?_⟩
  · rw [h.cards]
    exact hw.ids
  · rw [h.cards]
    exact hw.numbers
  · rw [h.cards, h.needs]
    exact hw.edges
  · rw [h.cards] at hc
    obtain ⟨p, hp, e⟩ := hw.projects c hc
    obtain ⟨p', hp', e'⟩ := h.projects p hp
    exact ⟨p', hp', e'.trans e⟩
  · rw [h.cards] at hc
    exact seated (hw.windows c hc w hw')
  · -- a window that left had no card waiting for it
    rw [h.cards] at hc
    rintro ⟨p', hp', rfl, hl⟩
    rcases h.come p' hp' with ⟨p, hp, e, -, -, hk⟩ | ⟨hf, -⟩
    · rcases hk hl with hl | hk
      · exact hw.here c hc ho _ hw' ⟨p, hp, e, hl⟩
      · exact hk c hc ho (e ▸ hw')
    · obtain ⟨p, hp, e, -⟩ := hw.windows c hc _ hw'
      exact hf p hp e
  · rw [h.cards]
    exact hw.taken
  · rw [h.cards]
    exact hw.deleted
  · rw [h.briefs] at he
    rw [h.cards]
    obtain ⟨hc, p, hp, e⟩ := hw.briefs e he
    obtain ⟨p', hp', e', -⟩ := h.stay p hp
    exact ⟨hc, p', hp', e'.trans e⟩
  · rw [h.cards]
    exact hw.pools
  · rcases h.come p hp with ⟨q, hq, -, em, er, -⟩ | ⟨-, hr⟩
    · rw [er hm]
      exact hw.sessions q hq (em ▸ hm)
    · obtain ⟨m, em⟩ := Option.isSome_iff_exists.mp hm
      exact (hr m em).1
  · rcases h.come p hp with ⟨q, hq, e, em, -⟩ | ⟨-, hr⟩
    · obtain ⟨q', hq', e', ep, -⟩ := h.stay q hq
      rw [Table.eq_of_key hp hq' (e.symm.trans e'.symm), ep]
      exact seated (hw.members q hq m (em.trans hm))
    · exact seated (hr m hm).2
  · rw [h.cards]
    exact hw.counted

theorem Wired.add {L : Licence} {b : Board} {c : Card} {ns : List Nat} (hw : Wired b)
    (h : Creatable L b c ns) : Wired (b.add c ns) := by
  have mem : ∀ {x}, x ∈ (b.add c ns).cards → x ∈ b.cards ∨ x = c := by
    intro x hx
    simpa [Board.add] using hx
  have old : ∀ {x}, x ∈ b.cards → x ∈ (b.add c ns).cards := fun hx => List.mem_append_left _ hx
  have new : c ∈ (b.add c ns).cards := List.mem_append_right _ (List.mem_singleton.mpr rfl)
  refine ⟨?_, fun x hx y hy hp hn => ?_, fun e he => ?_, fun x hx => ?_, hw.chiefs,
    fun x hx v hv => ?_, fun x hx ho v hv => ?_, fun x hx hp => ?_, fun x hx hd => ?_,
    fun e he => ?_, fun x hx => ?_, hw.sessions, hw.members, fun x hx => ?_⟩
  · show ((b.cards ++ [c]).map Card.id).Nodup
    rw [List.map_append, List.nodup_append]
    refine ⟨hw.ids, List.nodup_singleton _, fun i hi j hj => ?_⟩
    obtain ⟨x, hx, rfl⟩ := List.mem_map.mp hi
    rw [List.map_singleton, List.mem_singleton] at hj
    exact hj ▸ h.fresh x hx
  · rcases mem hx with hx' | ex <;> rcases mem hy with hy' | ey
    · exact hw.numbers x hx' y hy' hp hn
    · rw [ey] at hp hn
      exact absurd hn (h.number x hx' hp)
    · rw [ex] at hp hn
      exact absurd hn.symm (h.number y hy' hp.symm)
    · rw [ex, ey]
  · rcases List.mem_append.mp he with he | he
    · obtain ⟨x, hx, y, hy, hxy⟩ := hw.edges e he
      exact ⟨x, old hx, y, old hy, hxy⟩
    · obtain ⟨n, hn, rfl⟩ := List.mem_map.mp he
      obtain ⟨y, hy, rfl, ep, -⟩ := h.needs n hn
      exact ⟨c, new, y, old hy, rfl, rfl, ep.symm⟩
  · rcases mem hx with hx | rfl
    · exact hw.projects x hx
    · exact h.project
  · rcases mem hx with hx | rfl
    · exact hw.windows x hx v hv
    · exact (h.window v hv).1
  · rcases mem hx with hx | rfl
    · exact hw.here x hx ho v hv
    · exact (h.window v hv).2
  · rcases mem hx with hx | rfl
    · exact hw.taken x hx hp
    · rcases h.phase with ⟨e, -⟩ | ⟨-, -, w, e, -⟩
      · rw [e] at hp
        obtain k | ⟨p, k⟩ := hp <;> cases k
      · rw [e]
        rfl
  · rcases mem hx with hx | rfl
    · exact hw.deleted x hx hd
    · rw [h.kept] at hd
      cases hd
  · obtain ⟨⟨x, hx, ex⟩, hp⟩ := hw.briefs e he
    exact ⟨⟨x, old hx, ex⟩, hp⟩
  · rcases mem hx with hx | rfl
    · exact hw.pools x hx
    · exact h.pool
  · rcases mem hx with hx | rfl
    · exact hw.counted x hx
    · exact h.counted

theorem Wired.brief {b : Board} {c : Card} {w : Nat} (hw : Wired b) (hc : c ∈ b.cards)
    (ha : c.assignee = some w) : Wired (b.brief (some c.id) w) := by
  refine ⟨hw.ids, hw.numbers, hw.edges, hw.projects, hw.chiefs, hw.windows, hw.here, hw.taken,
    hw.deleted, fun e he => ?_, hw.pools, hw.sessions, hw.members, hw.counted⟩
  rcases List.mem_append.mp he with he | he
  · exact hw.briefs e he
  · obtain rfl : e = (c.id, w) := by simpa using he
    obtain ⟨p, hp, e, -⟩ := hw.windows c hc w ha
    exact ⟨⟨c, hc, rfl⟩, p, hp, e⟩

theorem Wired.ask {b : Board} (hw : Wired b) (project number : Nat) :
    Wired (b.ask project number) :=
  ⟨hw.ids, hw.numbers, hw.edges, hw.projects, hw.chiefs, hw.windows, hw.here, hw.taken,
    hw.deleted, hw.briefs, hw.pools, hw.sessions, hw.members, hw.counted⟩

/-- **The cards, the plan and the staff go on fitting together.** -/
theorem Edit.wired {L : Licence} {d d' : Debt} {b b' : Board} (h : Edit L d b d' b')
    (hw : Wired b) : Wired b' := by
  cases h with
  | staff h => exact hw.restaff h
  | brief c w hc hp ha => exact hw.brief hc ha
  | shift hc h => exact hw.put hc h.shifted (h.fits hw hc)
  | stop hc h => exact (hw.put hc h.shifted (h.fits hw hc)).ask _ _
  | create c ns h hu => exact hw.add h
  | link t n ht hn hne hp hr hc hd =>
    refine ⟨hw.ids, hw.numbers, fun e he => ?_, hw.projects, hw.chiefs, hw.windows, hw.here,
      hw.taken, hw.deleted, hw.briefs, hw.pools, hw.sessions, hw.members, hw.counted⟩
    rcases List.mem_append.mp he with he | he
    · exact hw.edges e he
    · rw [List.mem_singleton.mp he]
      exact ⟨t, ht, n, hn, rfl, rfl, hp⟩
  | unlink t n ht =>
    exact ⟨hw.ids, hw.numbers, fun e he => hw.edges e (List.mem_filter.mp he).1, hw.projects,
      hw.chiefs, hw.windows, hw.here, hw.taken, hw.deleted, hw.briefs, hw.pools, hw.sessions,
      hw.members, hw.counted⟩
  | tell p n h =>
    exact ⟨hw.ids, hw.numbers, hw.edges, hw.projects, hw.chiefs, hw.windows, hw.here, hw.taken,
      hw.deleted, hw.briefs, hw.pools, hw.sessions, hw.members, hw.counted⟩
  | dismiss ws hu => exact hw.dismiss ws
  | allMet t h => exact hw
  | allTold n h => exact hw
  | settled p h => exact hw

/-- What one edit keeps of a board that is wired, a chain of edits keeps. -/
theorem Edits.keep {L : Licence} {P : Debt → Board → Prop}
    (hP : ∀ {d b d' b'}, Edit L d b d' b' → Wired b → P d b → P d' b') {d d' : Debt} {b b' : Board}
    (h : Edits L d b d' b') (hw : Wired b) (hp : P d b) : Wired b' ∧ P d' b' := by
  induction h with
  | refl => exact ⟨hw, hp⟩
  | step _ e ih => exact ⟨e.wired (ih hw hp).1, hP e (ih hw hp).1 (ih hw hp).2⟩

theorem Edits.wired {L : Licence} {d d' : Debt} {b b' : Board} (h : Edits L d b d' b')
    (hw : Wired b) : Wired b' :=
  (h.keep (P := fun _ _ => True) (fun _ _ _ => trivial) hw trivial).1

/-! ## 3. The plan has no circle -/

/-- **No edit closes a circle.** -/
theorem Edit.acyclic {L : Licence} {d d' : Debt} {b b' : Board} (h : Edit L d b d' b')
    (hw : Wired b) (ha : Graph.Acyclic b.needs) : Graph.Acyclic b'.needs := by
  cases h with
  | staff h => exact h.needs ▸ ha
  | create c ns h hu =>
    refine ha.fan (fun x hx => ?_) fun hc => ?_
    · obtain ⟨-, -, n, hn, -, e, -⟩ := hw.edges _ hx
      exact h.fresh n hn e
    · obtain ⟨x, hx, e, -⟩ := h.needs c.id hc
      exact h.fresh x hx e
  | link t n ht hn hne hp hr hc hd => exact ha.add hne hr
  | unlink t n ht => exact ha.mono (List.filter_subset_self _)
  | _ => exact ha

/-! ## 4. One task at work in a window -/

/-- Each session has one card at work at most. -/
def Board.OneAtWork (b : Board) : Prop :=
  ∀ w, b.Session w → ∀ c ∈ b.cards, ∀ c' ∈ b.cards, c.assignee = some w → c'.assignee = some w →
    c.phase = .held → c'.phase = .held → c.id = c'.id

/-- What `OneAtWork` asks of the two doors that do not look whether the window is free. -/
def Licence.free : Licence := fun door b c w =>
  door = .wentOn ∨ door = .relaunched → (∃ u p, c.phase = .paused u p) → b.Session w → ¬ b.AtWork w

theorem Board.AtWork.inHand {b : Board} {w : Nat} : b.AtWork w → b.InHand w := by
  rintro ⟨c, hc, ha, hp⟩
  exact ⟨c, hc, ha, by rw [hp]; rfl⟩

/-- The window a card comes into has none at work. -/
theorem Door.Opens.free {b : Board} {c : Card} {w : Nat} {door : Door} (h : door.Opens b c w)
    (hl : Licence.free door b c w) (hs : b.Session w) : ¬ b.AtWork w := by
  cases door with
  | released => exact fun k => (h.2.2.2 hs).1 k.inHand
  | assigned =>
    rintro ⟨x, hx, hxa, -⟩
    exact h.2.2.1 x hx hxa
  | resumed => exact h.2.2 hs
  | reopened => exact fun k => h.2.2.2 hs k.inHand
  | wentOn =>
    obtain ⟨p, hp⟩ := h.1
    exact hl (Or.inl rfl) ⟨true, p, hp⟩ hs
  | relaunched => exact hl (Or.inr rfl) h.1 hs
  | withProject => exact h.2.2 hs
  | named => exact h.elim

/-- A card is in a window after a move because it came into it. -/
theorem Shift.entered {L : Licence} {b : Board} {d d' : Debt} {c c' : Card}
    (h : Shift L b d c d' c') (hp : c'.phase = .held) :
    ∃ door w, c'.assignee = some w ∧ Door.Opens b c w door ∧ L door b c w ∧ d.unmet = ∅ ∧
      (door = .reopened → c.id ∉ d.moved) := by
  cases h with
  | enter door w ho hl hu hr => exact ⟨door, w, rfl, ho, hl, hu, hr⟩
  | deleted hc hn hu =>
    have hp : c.phase = .held := hp
    rw [hp] at hc
    cases hc
  | _ => cases hp

/-- A session stays one, and a window that has a card was one before. -/
theorem Restaffed.session {b b' : Board} (h : Restaffed b b') (hw : Wired b) {c : Card}
    (hc : c ∈ b.cards) {w : Nat} (ha : c.assignee = some w) : b'.Session w ↔ b.Session w := by
  constructor
  · rintro ⟨p', hp', rfl, hm⟩
    rcases h.come p' hp' with ⟨p, hp, e, em, -⟩ | ⟨hf, -⟩
    · exact ⟨p, hp, e, em ▸ hm⟩
    · obtain ⟨p, hp, e, -⟩ := hw.windows c hc _ ha
      exact absurd e (hf p hp)
  · rintro ⟨p, hp, rfl, hm⟩
    obtain ⟨p', hp', e, -, em⟩ := h.stay p hp
    exact ⟨p', hp', e, em ▸ hm⟩

/-- A card a board has after its windows left: one it had, or one cancelled. -/
theorem Board.mem_dismiss {b : Board} {ws : List Nat} {x : Card} (hx : x ∈ (b.dismiss ws).cards) :
    (x ∈ b.cards ∧ Board.leaves ws x = false) ∨
      ∃ c ∈ b.cards, Board.leaves ws c = true ∧ x = { c with phase := .cancelled } := by
  obtain ⟨c, hc, rfl⟩ := List.mem_map.mp hx
  cases h : Board.leaves ws c with
  | true =>
    rw [if_pos rfl]
    exact Or.inr ⟨c, hc, h, rfl⟩
  | false =>
    rw [if_neg Bool.false_ne_true]
    exact Or.inl ⟨hc, h⟩

theorem Board.mem_add {b : Board} {c x : Card} {ns : List Nat} :
    x ∈ (b.add c ns).cards ↔ x ∈ b.cards ∨ x = c := by
  simp [Board.add]

theorem Board.OneAtWork.shift {L : Licence}
    (hL : ∀ door b c w, L door b c w → Licence.free door b c w) {d d' : Debt} {b : Board}
    {c c' : Card} (hc : c ∈ b.cards) (h : Shift L b d c d' c') (ho : b.OneAtWork) :
    (b.put c').OneAtWork := by
  intro w hs x hx y hy ax ay px py
  -- the card that came in finds no other at work
  have alone : ∀ y ∈ b.cards, c'.assignee = some w → y.assignee = some w → c'.phase = .held →
      y.phase = .held → False := by
    intro y hy ac ay pc py
    obtain ⟨door, v, ev, hop, hl, -⟩ := h.entered pc
    obtain rfl : v = w := Option.some.inj (ev.symm.trans ac)
    exact hop.free (hL _ _ _ _ hl) hs ⟨y, hy, ay, py⟩
  rcases (Board.mem_put hc h.shifted.id).mp hx with ex | ⟨hxb, -⟩ <;>
    rcases (Board.mem_put hc h.shifted.id).mp hy with ey | ⟨hyb, -⟩
  · rw [ex, ey]
  · exact (alone y hyb (ex ▸ ax) ay (ex ▸ px) py).elim
  · exact (alone x hxb (ey ▸ ay) ax (ey ▸ py) px).elim
  · exact ho w hs x hxb y hyb ax ay px py

/-- **One task at work in a window.** -/
theorem Edit.oneAtWork {L : Licence} (hL : ∀ door b c w, L door b c w → Licence.free door b c w)
    {d d' : Debt} {b b' : Board} (h : Edit L d b d' b') (hw : Wired b) (ho : b.OneAtWork) :
    b'.OneAtWork := by
  cases h with
  | staff h =>
    intro w hs x hx y hy ax ay px py
    rw [h.cards] at hx hy
    exact ho w ((h.session hw hx ax).mp hs) x hx y hy ax ay px py
  | shift hc h => exact ho.shift hL hc h
  | stop hc h => exact ho.shift hL hc h
  | create c ns h hu =>
    intro w hs x hx y hy ax ay px py
    have alone : ∀ y ∈ b.cards, c.assignee = some w → y.assignee = some w → c.phase = .held →
        y.phase = .held → False := by
      intro y hy ac ay pc py
      rcases h.phase with ⟨e, -⟩ | ⟨-, -, v, ev, hfree, -⟩
      · rw [pc] at e
        cases e
      · obtain rfl : v = w := Option.some.inj (ev.symm.trans ac)
        exact hfree hs (Board.AtWork.inHand ⟨y, hy, ay, py⟩)
    rcases Board.mem_add.mp hx with hxb | ex <;> rcases Board.mem_add.mp hy with hyb | ey
    · exact ho w hs x hxb y hyb ax ay px py
    · exact (alone x hxb (ey ▸ ay) ax (ey ▸ py) px).elim
    · exact (alone y hyb (ex ▸ ax) ay (ex ▸ px) py).elim
    · rw [ex, ey]
  | dismiss ws hu =>
    intro w hs x hx y hy ax ay px py
    rcases Board.mem_dismiss hx with ⟨hx, -⟩ | ⟨c, -, -, rfl⟩
    · rcases Board.mem_dismiss hy with ⟨hy, -⟩ | ⟨c, -, -, rfl⟩
      · exact ho w hs x hx y hy ax ay px py
      · cases py
    · cases px
  | _ => exact ho

/-! ## 5. Nothing is in a window before what it needs is accepted -/

/-- What is in a window, or goes on in it by itself, or was ever briefed to it, has its needs
    met, but the cards whose needs are just being changed. A card that waits on the board for a
    window was never briefed to it. -/
structure NeedsMet (d : Debt) (b : Board) : Prop where
  work : ∀ c ∈ b.cards, c.id ∉ d.unmet →
    c.phase = .held ∨ (∃ p, c.phase = .paused true p) → b.Met c.id
  briefed : ∀ c ∈ b.cards, c.id ∉ d.unmet → ∀ w, c.assignee = some w → (c.id, w) ∈ b.briefs →
    b.Met c.id
  unbriefed : ∀ c ∈ b.cards, c.phase = .opened → ∀ w, c.assignee = some w →
    (c.id, w) ∉ b.briefs

/-- What `NeedsMet` asks of the doors that do not look at what the card needs. -/
def Licence.met : Licence := fun door b c _ =>
  door = .assigned ∨ door = .resumed ∨ door = .reopened ∨ door = .withProject → b.Met c.id

/-- A card that comes into a window has its needs met. -/
theorem Door.Opens.met {b : Board} {c : Card} {w : Nat} {door : Door} {d : Debt}
    (h : door.Opens b c w) (hl : Licence.met door b c w) (hu : d.unmet = ∅) (hn : NeedsMet d b)
    (hc : c ∈ b.cards) : b.Met c.id := by
  have hd : c.id ∉ d.unmet := by
    rw [hu]
    exact Set.notMem_empty _
  cases door with
  | released => exact h.2.2.1
  | assigned => exact hl (Or.inl rfl)
  | resumed => exact hl (Or.inr (Or.inl rfl))
  | reopened => exact hl (Or.inr (Or.inr (Or.inl rfl)))
  | wentOn => exact hn.work c hc hd (Or.inr h.1)
  | relaunched => exact hn.briefed c hc hd w h.2.1 h.2.2
  | withProject => exact hl (Or.inr (Or.inr (Or.inr rfl)))
  | named => exact h.elim

/-- A card goes on by itself after a move because it was in its window before it. -/
theorem Shift.goesOn {L : Licence} {b : Board} {d d' : Debt} {c c' : Card}
    (h : Shift L b d c d' c') (hp : ∃ p, c'.phase = .paused true p) :
    c.phase = .held ∨ ∃ p, c.phase = .paused true p := by
  obtain ⟨p, hp⟩ := hp
  cases h with
  | paused u p' n hc hu hf hm =>
    cases hp
    exact hu rfl
  | deleted hc hn hu => exact Or.inr ⟨p, hp⟩
  | _ => cases hp

/-- The window of a card that was in one already. -/
theorem Shift.window {L : Licence} {b : Board} {d d' : Debt} {c c' : Card}
    (h : Shift L b d c d' c') {w : Nat} (ha : c'.assignee = some w) :
    c.assignee = some w ∨ c'.phase = .held ∧ ∀ e ∈ b.briefs, e.2 ≠ w := by
  cases h with
  | enter door v ho hl hu hr =>
    obtain rfl : v = w := Option.some.inj ha
    cases door with
    | released => exact Or.inl ho.2.1
    | assigned => exact Or.inr ⟨rfl, ho.2.2.2⟩
    | resumed => exact Or.inl ho.2.1
    | reopened => exact Or.inl ho.2.1
    | wentOn => exact Or.inl ho.2
    | relaunched => exact Or.inl ho.2.1
    | withProject => exact Or.inl ho.2.1
    | named => exact ho.elim
  | shelved hc => cases ha
  | unpaused hc hl hu => cases ha
  | _ => exact Or.inl ha

theorem Shift.unmet {L : Licence} {b : Board} {d d' : Debt} {c c' : Card}
    (h : Shift L b d c d' c') : d'.unmet = d.unmet := by
  cases h <;> rfl

/-- A card on the board after a move has no window. -/
theorem Shift.opened {L : Licence} {b : Board} {d d' : Debt} {c c' : Card}
    (h : Shift L b d c d' c') (hp : c'.phase = .opened) : c'.assignee = none := by
  cases h with
  | shelved hc => rfl
  | unpaused hc hl hu => rfl
  | deleted hc hn hu =>
    have hp : c.phase = .opened := hp
    rw [hp] at hc
    cases hc
  | _ => cases hp

theorem NeedsMet.shift {L : Licence} (hL : ∀ door b c w, L door b c w → Licence.met door b c w)
    {d d' : Debt} {b : Board} {c c' : Card} (hw : Wired b) (hc : c ∈ b.cards)
    (h : Shift L b d c d' c') (hn : NeedsMet d b) : NeedsMet d' (b.put c') := by
  have hs := h.shifted
  have mem : ∀ {x}, x ∈ (b.put c').cards → x = c' ∨ (x ∈ b.cards ∧ x.id ≠ c.id) :=
    (Board.mem_put hc hs.id).mp
  have mono : ∀ {u}, b.Met u → (b.put c').Met u := hw.met_put hc hs.id hs.stays
  refine ⟨fun x hx hd hp => ?_, fun x hx hd w ha hb => ?_, fun x hx ho w ha hb => ?_⟩
  · rw [h.unmet] at hd
    rcases mem hx with rfl | ⟨hx, -⟩
    · rw [hs.id] at hd ⊢
      rcases hp with hp | hp
      · obtain ⟨door, w, -, hop, hl, hu, -⟩ := h.entered hp
        exact mono (hop.met (hL _ _ _ _ hl) hu hn hc)
      · exact mono (hn.work c hc hd (h.goesOn hp))
    · exact mono (hn.work x hx hd hp)
  · rw [h.unmet] at hd
    rcases mem hx with rfl | ⟨hx, -⟩
    · rw [hs.id] at hd hb ⊢
      rcases h.window ha with ha | ⟨-, hf⟩
      · exact mono (hn.briefed c hc hd w ha hb)
      · exact absurd rfl (hf _ hb)
    · exact mono (hn.briefed x hx hd w ha hb)
  · rcases mem hx with rfl | ⟨hx, -⟩
    · rw [h.opened ho] at ha
      cases ha
    · exact hn.unbriefed x hx ho w ha hb

/-- An edge of a board with a new card: one of the old cards', or one of the new card's. -/
theorem Wired.mem_add_needs {b : Board} {c : Card} {ns : List Nat} (hw : Wired b)
    (hf : ∀ c' ∈ b.cards, c'.id ≠ c.id) {t n : Nat} (h : (t, n) ∈ (b.add c ns).needs) :
    ((t, n) ∈ b.needs ∧ t ≠ c.id ∧ n ≠ c.id) ∨ (t = c.id ∧ n ∈ ns) := by
  rcases List.mem_append.mp h with h | h
  · obtain ⟨x, hx, y, hy, ex, ey, -⟩ := hw.edges _ h
    have ex : x.id = t := ex
    have ey : y.id = n := ey
    exact Or.inl ⟨h, ex ▸ hf x hx, ey ▸ hf y hy⟩
  · obtain ⟨n', hn', e⟩ := List.mem_map.mp h
    cases e
    exact Or.inr ⟨rfl, hn'⟩

theorem Board.is_add {b : Board} {c : Card} {ns : List Nat} {t : Nat} {ph : Phase}
    (h : b.Is t ph) : (b.add c ns).Is t ph := by
  obtain ⟨x, hx, e, hp⟩ := h
  exact ⟨x, Board.mem_add.mpr (Or.inl hx), e, hp⟩

theorem Board.is_of_add {b : Board} {c : Card} {ns : List Nat} {t : Nat} {ph : Phase}
    (hp : c.phase ≠ ph) (h : (b.add c ns).Is t ph) : b.Is t ph := by
  obtain ⟨x, hx, e, hx'⟩ := h
  rcases Board.mem_add.mp hx with hx | rfl
  · exact ⟨x, hx, e, hx'⟩
  · exact absurd hx' hp

theorem Creatable.not_accepted {L : Licence} {b : Board} {c : Card} {ns : List Nat}
    (h : Creatable L b c ns) : c.phase ≠ .accepted := by
  rcases h.phase with ⟨e, -⟩ | ⟨e, -⟩ <;> simp [e]

theorem NeedsMet.add {L : Licence} {d : Debt} {b : Board} {c : Card} {ns : List Nat}
    (hw : Wired b) (h : Creatable L b c ns) (hn : NeedsMet d b) :
    NeedsMet (d.touch c) (b.add c ns) := by
  have mono : ∀ {x}, x ∈ b.cards → b.Met x.id → (b.add c ns).Met x.id := by
    intro x hx hm n hn'
    rcases hw.mem_add_needs h.fresh hn' with ⟨hn', -⟩ | ⟨e, -⟩
    · exact Board.is_add (hm n hn')
    · exact absurd e (h.fresh x hx)
  have unknown : ∀ w, (c.id, w) ∉ b.briefs := by
    intro w hb
    obtain ⟨⟨x, hx, e⟩, -⟩ := hw.briefs _ hb
    exact h.fresh x hx e
  refine ⟨fun x hx hd hp => ?_, fun x hx hd w ha hb => ?_, fun x hx ho w ha => ?_⟩
  · rcases Board.mem_add.mp hx with hx | rfl
    · exact mono hx (hn.work x hx hd hp)
    · intro n hn'
      rcases hw.mem_add_needs h.fresh hn' with ⟨-, k, -⟩ | ⟨-, hns⟩
      · exact absurd rfl k
      · rcases h.phase with ⟨e, -⟩ | ⟨-, hm, -⟩
        · rw [e] at hp
          obtain k | ⟨p, k⟩ := hp <;> cases k
        · exact Board.is_add (hm n hns)
  · rcases Board.mem_add.mp hx with hx | rfl
    · exact mono hx (hn.briefed x hx hd w ha hb)
    · exact absurd hb (unknown w)
  · rcases Board.mem_add.mp hx with hx | rfl
    · exact hn.unbriefed x hx ho w ha
    · exact unknown w

theorem Board.is_dismiss {b : Board} {ws : List Nat} {t : Nat} {ph : Phase}
    (h1 : ph ≠ .opened) (h2 : ph ≠ .held) (h : b.Is t ph) : (b.dismiss ws).Is t ph := by
  obtain ⟨x, hx, e, hp⟩ := h
  refine ⟨x, List.mem_map.mpr ⟨x, hx, if_neg fun k => ?_⟩, e, hp⟩
  rcases Board.leaves_phase k with k | k
  · exact h1 (hp.symm.trans k)
  · exact h2 (hp.symm.trans k)

theorem NeedsMet.dismiss {d : Debt} {b : Board} (ws : List Nat) (hn : NeedsMet d b) (s m : Set Nat) :
    NeedsMet { d with untold := s, moved := m } (b.dismiss ws) := by
  have mono : ∀ {u}, b.Met u → (b.dismiss ws).Met u :=
    fun h n hn' => Board.is_dismiss (by simp) (by simp) (h n hn')
  refine ⟨fun x hx hd hp => ?_, fun x hx hd w ha hb => ?_, fun x hx ho w ha => ?_⟩
  · rcases Board.mem_dismiss hx with ⟨hx, -⟩ | ⟨c, hc, -, rfl⟩
    · exact mono (hn.work x hx hd hp)
    · obtain k | ⟨p, k⟩ := hp <;> cases k
  · rcases Board.mem_dismiss hx with ⟨hx, -⟩ | ⟨c, hc, -, rfl⟩
    · exact mono (hn.briefed x hx hd w ha hb)
    · exact mono (hn.briefed c hc hd w ha hb)
  · rcases Board.mem_dismiss hx with ⟨hx, -⟩ | ⟨c, hc, -, rfl⟩
    · exact hn.unbriefed x hx ho w ha
    · cases ho

/-- **Nothing comes into a window before what it needs is accepted.** -/
theorem Edit.needsMet {L : Licence} (hL : ∀ door b c w, L door b c w → Licence.met door b c w)
    {d d' : Debt} {b b' : Board} (h : Edit L d b d' b') (hw : Wired b) (hn : NeedsMet d b) :
    NeedsMet d' b' := by
  cases h with
  | staff h =>
    have em : ∀ {u}, b.Met u → b'.Met u := by
      intro u hm n hn'
      obtain ⟨x, hx, e⟩ := hm n (h.needs ▸ hn')
      exact ⟨x, h.cards ▸ hx, e⟩
    refine ⟨fun x hx hd hp => ?_, fun x hx hd w ha hb => ?_, fun x hx ho w ha hb => ?_⟩
    · exact em (hn.work x (h.cards ▸ hx) hd hp)
    · exact em (hn.briefed x (h.cards ▸ hx) hd w ha (h.briefs ▸ hb))
    · exact hn.unbriefed x (h.cards ▸ hx) ho w ha (h.briefs ▸ hb)
  | brief c w hc hp ha =>
    -- the brief is of a card at work
    have own : ∀ {x v}, x ∈ b.cards → (x.id, v) ∈ (b.brief (some c.id) w).briefs →
        (x.id, v) ∈ b.briefs ∨ x = c := by
      intro x v hx hb
      rcases List.mem_append.mp hb with hb | hb
      · exact Or.inl hb
      · have e : x.id = c.id ∧ v = w := by simpa using hb
        exact Or.inr (hw.unique hx hc e.1)
    refine ⟨hn.work, fun x hx hd v hv hb => ?_, fun x hx ho v hv hb => ?_⟩
    · rcases own hx hb with hb | rfl
      · exact hn.briefed x hx hd v hv hb
      · exact hn.work x hx hd (Or.inl hp)
    · rcases own hx hb with hb | rfl
      · exact hn.unbriefed x hx ho v hv hb
      · rw [hp] at ho
        cases ho
  | shift hc h => exact hn.shift hL hw hc h
  | stop hc h =>
    have k := hn.shift hL hw hc h
    exact ⟨k.work, k.briefed, k.unbriefed⟩
  | create c ns h hu => exact hn.add hw h
  | link t n ht hn' hne hp hr hc hd =>
    have em : ∀ {u}, u ≠ t.id → b.Met u → (b.link t.id n.id).Met u := by
      intro u hu hm k hk
      rcases List.mem_append.mp hk with hk | hk
      · exact hm k hk
      · exact absurd (Prod.mk.inj (List.mem_singleton.mp hk)).1 hu
    have out : ∀ {x : Card}, x.id ∉ (d.owe t.id).unmet → x.id ≠ t.id ∧ x.id ∉ d.unmet := by
      intro x hx
      exact ⟨fun e => hx (Or.inl e), fun k => hx (Or.inr k)⟩
    refine ⟨fun x hx hd hp => ?_, fun x hx hd w ha hb => ?_, hn.unbriefed⟩
    · exact em (out hd).1 (hn.work x hx (out hd).2 hp)
    · exact em (out hd).1 (hn.briefed x hx (out hd).2 w ha hb)
  | unlink t n ht =>
    have em : ∀ {u}, b.Met u → (b.unlink t.id n).Met u :=
      fun hm k hk => hm k (List.mem_filter.mp hk).1
    exact ⟨fun x hx hd hp => em (hn.work x hx hd hp),
      fun x hx hd w ha hb => em (hn.briefed x hx hd w ha hb), hn.unbriefed⟩
  | tell p n h => exact ⟨hn.work, hn.briefed, hn.unbriefed⟩
  | dismiss ws hu => exact hn.dismiss ws _ _
  | allMet t h =>
    have out : ∀ {x : Card}, x.id ∉ d.unmet \ {t} → x.id ∉ d.unmet ∨ x.id = t := by
      intro x hx
      by_contra k
      rw [not_or, not_not] at k
      exact hx k
    refine ⟨fun x hx hd hp => ?_, fun x hx hd w ha hb => ?_, hn.unbriefed⟩
    · rcases out hd with hd | rfl
      · exact hn.work x hx hd hp
      · rcases h with h | h
        · exact h
        · have hs := hw.taken x hx hp
          rcases h x hx rfl with e | e
          · rw [e] at hp
            obtain k | ⟨p, k⟩ := hp <;> cases k
          · rw [e] at hs
            cases hs
    · rcases out hd with hd | rfl
      · exact hn.briefed x hx hd w ha hb
      · rcases h with h | h
        · exact h
        · rcases h x hx rfl with e | e
          · exact absurd hb (hn.unbriefed x hx e w ha)
          · rw [e] at ha
            cases ha
  | allTold n h => exact ⟨hn.work, hn.briefed, hn.unbriefed⟩
  | settled p h => exact ⟨hn.work, hn.briefed, hn.unbriefed⟩

/-! ## 6. What waits for a cancelled card is told -/

/-- The log says of each card that it is stranded once at most, and of each that waits for a
    cancelled one that it is, but of those for a card just cancelled. Nothing at work waits for a
    cancelled one. -/
structure Stranded (d : Debt) (b : Board) : Prop where
  once : b.strandings.Nodup
  told : ∀ c ∈ b.cards, c.phase.waits = true → ∀ n, (c.id, n) ∈ b.needs → b.Is n .cancelled →
    n ∉ d.untold → b.ToldOf c
  work : ∀ c ∈ b.cards, c.phase = .held → ∀ n, (c.id, n) ∈ b.needs → ¬ b.Is n .cancelled

/-- A card is in one phase. -/
theorem Wired.phase_unique {b : Board} (hw : Wired b) {t : Nat} {p q : Phase} (hp : b.Is t p)
    (hq : b.Is t q) : p = q := by
  obtain ⟨x, hx, rfl, rfl⟩ := hp
  exact (hw.is_iff hx).mp hq

/-- A card that is met has no cancelled need. -/
theorem Board.Met.not_cancelled {b : Board} (hw : Wired b) {t n : Nat} (h : b.Met t)
    (hn : (t, n) ∈ b.needs) : ¬ b.Is n .cancelled := by
  intro hc
  cases hw.phase_unique hc (h n hn)

/-- A card at work before a move, or waiting, is what waits after it. -/
theorem Shift.waited {L : Licence} {b : Board} {d d' : Debt} {c c' : Card}
    (h : Shift L b d c d' c') (hp : c'.phase.waits = true) :
    c.phase.waits = true ∨ c.phase = .held := by
  cases h with
  | paused u p n hc hu hf hm => exact hc
  | shelved hc => cases e : c.phase <;> simp [e, Phase.inHand] at hc <;> simp [Phase.waits]
  | unpaused hc hl hu =>
    obtain ⟨u, p, e⟩ := hc
    rw [e]
    exact Or.inl rfl
  | deleted hc hn hu => exact Or.inl hp
  | _ => cases hp

/-- A card is cancelled after a move because it was, or because the move cancelled it. -/
theorem Shift.called_off {L : Licence} {b : Board} {d d' : Debt} {c c' : Card}
    (h : Shift L b d c d' c') (hp : c'.phase = .cancelled) :
    c.phase = .cancelled ∨ c.phase ≠ .accepted ∧ d.unmet = ∅ ∧ c.id ∈ d'.untold := by
  cases h with
  | cancelled hc hu => exact Or.inr ⟨hc, hu, Set.mem_insert _ _⟩
  | deleted hc hn hu => exact Or.inl hp
  | _ => cases hp

theorem Shift.untold {L : Licence} {b : Board} {d d' : Debt} {c c' : Card}
    (h : Shift L b d c d' c') {n : Nat} (hn : n ∉ d'.untold) : n ∉ d.untold := by
  cases h with
  | cancelled hc hu => exact fun k => hn (Set.mem_insert_of_mem _ k)
  | _ => exact hn

theorem Stranded.shift {L : Licence} (hL : ∀ door b c w, L door b c w → Licence.met door b c w)
    {d d' : Debt} {b : Board} {c c' : Card} (hw : Wired b) (hn : NeedsMet d b) (hc : c ∈ b.cards)
    (h : Shift L b d c d' c') (ht : Stranded d b) : Stranded d' (b.put c') := by
  have hs := h.shifted
  have mem : ∀ {x}, x ∈ (b.put c').cards → x = c' ∨ (x ∈ b.cards ∧ x.id ≠ c.id) :=
    (Board.mem_put hc hs.id).mp
  -- a cancelled card was so before, or has just been: then its waiters may not be told, and
  -- nothing at work needs it
  have was : ∀ {n}, (b.put c').Is n .cancelled → b.Is n .cancelled ∨
      n ∈ d'.untold ∧ d.unmet = ∅ ∧ ¬ b.Is n .accepted := by
    intro n hi
    rcases (Board.is_put hc hs.id).mp hi with ⟨rfl, hp⟩ | ⟨-, hi⟩
    · rcases h.called_off hp with hp | ⟨ha, hu, hm⟩
      · exact Or.inl ⟨c, hc, rfl, hp⟩
      · exact Or.inr ⟨hm, hu, fun k => ha ((hw.is_iff hc).mp k)⟩
    · exact Or.inl hi
  have told : ∀ {x : Card} {n}, x ∈ b.cards → x.phase.waits = true ∨ x.phase = .held →
      (x.id, n) ∈ b.needs → (b.put c').Is n .cancelled → n ∉ d'.untold → b.ToldOf x := by
    intro x n hx hp hnd hi hu
    rcases was hi with hi | ⟨k, -⟩
    · rcases hp with hp | hp
      · exact ht.told x hx hp n hnd hi (h.untold hu)
      · exact absurd hi (ht.work x hx hp n hnd)
    · exact absurd k hu
  refine ⟨ht.once, fun x hx hp n hnd hi hu => ?_, fun x hx hp n hnd hi => ?_⟩
  · rcases mem hx with rfl | ⟨hx, -⟩
    · rw [hs.id] at hnd
      have := told hc (h.waited hp) hnd hi hu
      unfold Board.ToldOf at this ⊢
      rw [hs.project, hs.number]
      exact this
    · exact told hx (Or.inl hp) hnd hi hu
  · rcases mem hx with rfl | ⟨hx, -⟩
    · obtain ⟨door, w, -, hop, hl, hu, -⟩ := h.entered hp
      have hm := hop.met (hL _ _ _ _ hl) hu hn hc
      rw [hs.id] at hnd
      rcases was hi with hi | ⟨-, -, k⟩
      · exact hm.not_cancelled hw hnd hi
      · exact k (hm n hnd)
    · rcases was hi with hi | ⟨-, hu, k⟩
      · exact ht.work x hx hp n hnd hi
      · have hd : x.id ∉ d.unmet := by
          rw [hu]
          exact Set.notMem_empty _
        exact k (hn.work x hx hd (Or.inl hp) n hnd)

theorem Stranded.add {L : Licence} {d : Debt} {b : Board} {c : Card} {ns : List Nat}
    (hw : Wired b) (h : Creatable L b c ns) (ht : Stranded d b) :
    Stranded (d.touch c) (b.add c ns) := by
  have hp : c.phase ≠ .cancelled := by
    rcases h.phase with ⟨e, -⟩ | ⟨e, -⟩ <;> simp [e]
  -- what a card of the new board needs and is cancelled, it needed before
  have old : ∀ {x : Card} {n}, (x.id, n) ∈ (b.add c ns).needs → (b.add c ns).Is n .cancelled →
      (x.id, n) ∈ b.needs ∧ b.Is n .cancelled := by
    intro x n hnd hi
    have hi := Board.is_of_add hp hi
    rcases hw.mem_add_needs h.fresh hnd with ⟨hnd, -⟩ | ⟨-, hns⟩
    · exact ⟨hnd, hi⟩
    · obtain ⟨y, hy, e, -, hne, -⟩ := h.needs n hns
      exact absurd ((hw.is_iff hy).mp (e ▸ hi)) hne
  have new : ∀ {n}, (c.id, n) ∉ b.needs := by
    intro n hnd
    obtain ⟨x, hx, -, -, e, -⟩ := hw.edges _ hnd
    exact h.fresh x hx e
  refine ⟨ht.once, fun x hx hpx n hnd hi hu => ?_, fun x hx hpx n hnd hi => ?_⟩
  · obtain ⟨hnb, hib⟩ := old hnd hi
    rcases Board.mem_add.mp hx with hx | rfl
    · exact ht.told x hx hpx n hnb hib hu
    · exact absurd hnb new
  · obtain ⟨hnb, hib⟩ := old hnd hi
    rcases Board.mem_add.mp hx with hx | rfl
    · exact ht.work x hx hpx n hnb hib
    · exact absurd hnb new

/-- A card is in a phase after windows left because it was, or because it left with them. -/
theorem Board.is_of_dismiss {b : Board} {ws : List Nat} {t : Nat} {ph : Phase}
    (h : (b.dismiss ws).Is t ph) : b.Is t ph ∨
      ph = .cancelled ∧ ∃ c ∈ b.cards, c.id = t ∧ Board.leaves ws c = true := by
  obtain ⟨x, hx, e, hp⟩ := h
  rcases Board.mem_dismiss hx with ⟨hx, -⟩ | ⟨c, hc, hl, rfl⟩
  · exact Or.inl ⟨x, hx, e, hp⟩
  · exact Or.inr ⟨hp.symm, c, hc, e, hl⟩

theorem Stranded.dismiss {d : Debt} {b : Board} (ws : List Nat) (hw : Wired b)
    (hn : NeedsMet d b) (hu : d.unmet = ∅) (ht : Stranded d b) (m : Set Nat) :
    Stranded { d with untold := d.untold ∪ { t | ∃ c ∈ b.cards, c.id = t ∧ Board.leaves ws c }
                      moved := m } (b.dismiss ws) := by
  refine ⟨ht.once, fun x hx hp n hnd hi hun => ?_, fun x hx hp n hnd hi => ?_⟩
  · rcases Board.mem_dismiss hx with ⟨hx, -⟩ | ⟨c, -, -, rfl⟩
    · rcases Board.is_of_dismiss hi with hi | ⟨-, hl⟩
      · exact ht.told x hx hp n hnd hi fun k => hun (Or.inl k)
      · exact absurd (Or.inr hl) hun
    · cases hp
  · rcases Board.mem_dismiss hx with ⟨hx, -⟩ | ⟨c, -, -, rfl⟩
    · have hm : b.Is n .accepted := by
        refine hn.work x hx ?_ (Or.inl hp) n hnd
        rw [hu]
        exact Set.notMem_empty _
      rcases Board.is_of_dismiss hi with hi | ⟨-, c, hc, rfl, hl⟩
      · exact ht.work x hx hp n hnd hi
      · have ha := (hw.is_iff hc).mp hm
        rcases Board.leaves_phase hl with k | k <;> simp [k] at ha
    · cases hp

/-- **What waits for a cancelled card is told, and told once.** -/
theorem Edit.stranded {L : Licence} (hL : ∀ door b c w, L door b c w → Licence.met door b c w)
    {d d' : Debt} {b b' : Board} (h : Edit L d b d' b') (hw : Wired b) (hn : NeedsMet d b)
    (ht : Stranded d b) : Stranded d' b' := by
  cases h with
  | staff h =>
    have em : ∀ {n ph}, b'.Is n ph → b.Is n ph := by
      rintro n ph ⟨x, hx, e⟩
      exact ⟨x, h.cards ▸ hx, e⟩
    refine ⟨h.strandings ▸ ht.once, fun x hx hp n hnd hi hu => ?_, fun x hx hp n hnd hi => ?_⟩
    · unfold Board.ToldOf
      rw [h.strandings]
      exact ht.told x (h.cards ▸ hx) hp n (h.needs ▸ hnd) (em hi) hu
    · exact ht.work x (h.cards ▸ hx) hp n (h.needs ▸ hnd) (em hi)
  | brief c w hc hp ha => exact ⟨ht.once, ht.told, ht.work⟩
  | shift hc h => exact ht.shift hL hw hn hc h
  | stop hc h =>
    have k := ht.shift hL hw hn hc h
    exact ⟨k.once, k.told, k.work⟩
  | create c ns h hu => exact ht.add hw h
  | link t n ht' hn' hne hp hr hc hd =>
    have old : ∀ {x : Card} {k}, (x.id, k) ∈ (b.link t.id n.id).needs → b.Is k .cancelled →
        (x.id, k) ∈ b.needs := by
      intro x k hk hi
      rcases List.mem_append.mp hk with hk | hk
      · exact hk
      · obtain ⟨-, rfl⟩ := Prod.mk.inj (List.mem_singleton.mp hk)
        exact absurd ((hw.is_iff hn').mp hi) hc
    exact ⟨ht.once, fun x hx hp k hk hi => ht.told x hx hp k (old hk hi) hi,
      fun x hx hp k hk hi => ht.work x hx hp k (old hk hi) hi⟩
  | unlink t n ht' =>
    exact ⟨ht.once, fun x hx hp k hk => ht.told x hx hp k (List.mem_filter.mp hk).1,
      fun x hx hp k hk => ht.work x hx hp k (List.mem_filter.mp hk).1⟩
  | tell p n h =>
    refine ⟨?_, fun x hx hp k hk hi hu => ?_, ht.work⟩
    · show (b.strandings ++ [(p, n)]).Nodup
      rw [List.nodup_append]
      refine ⟨ht.once, List.nodup_singleton _, fun a ha e he => ?_⟩
      rw [List.mem_singleton.mp he]
      exact fun k => h (k ▸ ha)
    · exact List.mem_append_left _ (ht.told x hx hp k hk hi hu)
  | dismiss ws hu => exact ht.dismiss ws hw hn hu _
  | allMet t h => exact ⟨ht.once, ht.told, ht.work⟩
  | allTold n h =>
    refine ⟨ht.once, fun x hx hp k hk hi hu => ?_, ht.work⟩
    by_cases e : k = n
    · exact h x hx hp (e ▸ hk)
    · exact ht.told x hx hp k hk hi fun hm => hu ⟨hm, e⟩
  | settled p h => exact ⟨ht.once, ht.told, ht.work⟩

/-! ## 7. Nothing ready is left on the board -/

/-- Nothing ready is left on the board, but in the projects where it is still to be released. -/
def Settled (d : Debt) (b : Board) : Prop := ∀ p, p ∉ d.loose → b.SettledIn p

/-- A window takes nothing: it has a task in hand, or an undecided result. -/
def Board.Busy (b : Board) (w : Nat) : Prop := b.InHand w ∨ b.Undecided w

/-- What keeps a window busy. -/
def Card.keeps (c : Card) : Bool := c.phase.inHand || (c.phase == .done && !c.deleted)

theorem Board.busy_iff {b : Board} {w : Nat} :
    b.Busy w ↔ ∃ c ∈ b.cards, c.assignee = some w ∧ c.keeps = true := by
  constructor
  · rintro (⟨c, hc, ha, hp⟩ | ⟨c, hc, ha, hp, hd⟩)
    · exact ⟨c, hc, ha, by simp [Card.keeps, hp]⟩
    · exact ⟨c, hc, ha, by simp [Card.keeps, hp, hd]⟩
  · rintro ⟨c, hc, ha, hk⟩
    simp only [Card.keeps, Bool.or_eq_true, Bool.and_eq_true, beq_iff_eq,
      Bool.not_eq_true'] at hk
    rcases hk with hk | ⟨hp, hd⟩
    · exact Or.inl ⟨c, hc, ha, hk⟩
    · exact Or.inr ⟨c, hc, ha, hp, hd⟩

/-- Cards given to one window are of one project. -/
theorem Wired.same_project {b : Board} (hw : Wired b) {c c' : Card} (hc : c ∈ b.cards)
    (hc' : c' ∈ b.cards) {w : Nat} (h : c.assignee = some w) (h' : c'.assignee = some w) :
    c.project = c'.project := by
  obtain ⟨p, hp, e, ep⟩ := hw.windows c hc w h
  obtain ⟨q, hq, e', eq⟩ := hw.windows c' hc' w h'
  rw [← ep, ← eq, Table.eq_of_key hp hq (e.trans e'.symm)]

/-- A card that kept its window busy before a move keeps it so after it, unless its project is
    to be released, or the window is there no more. -/
theorem Shift.keeps {L : Licence} {b : Board} {d d' : Debt} {c c' : Card}
    (h : Shift L b d c d' c') {w : Nat} (ha : c.assignee = some w) (hk : c.keeps = true) :
    (c'.assignee = some w ∧ c'.keeps = true) ∨ c.project ∈ d'.loose ∨ b.Left w := by
  cases h with
  | enter door v ho hl hu hr =>
    have same : c.assignee = some v → (some v = some w ∧
        ({ c with assignee := some v, phase := .held } : Card).keeps = true) :=
      fun e => ⟨e.symm.trans ha, rfl⟩
    cases door with
    | released => exact Or.inl (same ho.2.1)
    | assigned => simp [Card.keeps, ho.1, Phase.inHand] at hk
    | resumed => exact Or.inl (same ho.2.1)
    | reopened => exact Or.inl (same ho.2.1)
    | wentOn => exact Or.inl (same ho.2)
    | relaunched => exact Or.inl (same ho.2.1)
    | withProject => exact Or.inl (same ho.2.1)
    | named => exact ho.elim
  | paused u p hc hu hm => exact Or.inl ⟨ha, rfl⟩
  | finished hc hd hm hu => exact Or.inl ⟨ha, by simp [Card.keeps, hd]⟩
  | unpaused hc hl hu => exact Or.inr (Or.inr (hl w ha))
  | deleted hc hn hu => cases e : c.phase <;> simp [Card.keeps, e, Phase.inHand, Phase.finished] at hk hc
  | _ => exact Or.inr (Or.inl (Set.mem_insert _ _))

theorem Shift.loose {L : Licence} {b : Board} {d d' : Debt} {c c' : Card}
    (h : Shift L b d c d' c') {p : Nat} (hp : p ∉ d'.loose) : p ∉ d.loose := by
  cases h with
  | accepted hc hu => exact fun k => hp (Set.mem_insert_of_mem _ k)
  | failed hc hu => exact fun k => hp (Set.mem_insert_of_mem _ k)
  | cancelled hc hu => exact fun k => hp (Set.mem_insert_of_mem _ k)
  | shelved hc => exact fun k => hp (Set.mem_insert_of_mem _ k)
  | _ => exact hp

/-- A card is accepted after a move because it was, or because the move accepted it. -/
theorem Shift.passed {L : Licence} {b : Board} {d d' : Debt} {c c' : Card}
    (h : Shift L b d c d' c') (hp : c'.phase = .accepted) :
    c.phase = .accepted ∨ c.project ∈ d'.loose := by
  cases h with
  | accepted hc hu => exact Or.inr (Set.mem_insert _ _)
  | deleted hc hn hu => exact Or.inl hp
  | _ => cases hp

theorem Settled.shift {L : Licence} {d d' : Debt} {b : Board} {c c' : Card} (hw : Wired b)
    (hc : c ∈ b.cards) (h : Shift L b d c d' c') (hs : Settled d b) : Settled d' (b.put c') := by
  have sh := h.shifted
  intro p hp x hx ep ho w ha hm
  rcases (Board.mem_put hc sh.id).mp hx with rfl | ⟨hxb, hne⟩
  · rw [h.opened ho] at ha
    cases ha
  -- what it needs was accepted before: an accept elsewhere is none of it
  have met : b.Met x.id := by
    intro n hn
    rcases (Board.is_put hc sh.id).mp (hm n hn) with ⟨rfl, hpa⟩ | ⟨-, hi⟩
    · rcases h.passed hpa with hpa | hl
      · exact ⟨c, hc, rfl, hpa⟩
      · obtain ⟨y, hy, z, hz, ey, ez, epz⟩ := hw.edges _ hn
        rw [hw.unique hy hxb ey, hw.unique hz hc ez, ep] at epz
        exact absurd (epz ▸ hl) hp
    · exact hi
  obtain ⟨hsn, hb⟩ := hs p (h.loose hp) x hxb ep ho w ha met
  refine ⟨hsn, Board.busy_iff.mpr ?_⟩
  obtain ⟨y, hy, hya, hyk⟩ := Board.busy_iff.mp hb
  by_cases e : y.id = c.id
  · obtain rfl := hw.unique hy hc e
    rcases h.keeps hya hyk with ⟨ha', hk'⟩ | hl | hl
    · exact ⟨c', (Board.mem_put hc sh.id).mpr (Or.inl rfl), ha', hk'⟩
    · rw [hw.same_project hc hxb hya ha, ep] at hl
      exact absurd hl hp
    · exact absurd hl (hw.here x hxb ho w ha)
  · exact ⟨y, (Board.mem_put hc sh.id).mpr (Or.inr ⟨hy, e⟩), hya, hyk⟩

theorem Settled.dismiss {d : Debt} {b : Board} (ws : List Nat) (hs : Settled d b) (u m : Set Nat) :
    Settled { d with untold := u, moved := m } (b.dismiss ws) := by
  intro p hp x hx ep ho w ha hm
  rcases Board.mem_dismiss hx with ⟨hxb, hl⟩ | ⟨c, -, -, rfl⟩
  · have met : b.Met x.id := by
      intro n hn
      rcases Board.is_of_dismiss (hm n hn) with hi | ⟨k, -⟩
      · exact hi
      · cases k
    obtain ⟨hsn, hb⟩ := hs p hp x hxb ep ho w ha met
    -- its window did not leave, so nothing of it was cancelled
    have stays : w ∉ ws := by
      simpa [Board.leaves, ha, ho] using hl
    refine ⟨hsn, Board.busy_iff.mpr ?_⟩
    obtain ⟨y, hy, hya, hyk⟩ := Board.busy_iff.mp hb
    refine ⟨y, List.mem_map.mpr ⟨y, hy, if_neg fun k => ?_⟩, hya, hyk⟩
    simp only [Board.leaves, hya, Option.any_some, List.contains_eq_mem, Bool.and_eq_true,
      decide_eq_true_eq] at k
    exact stays k.1
  · cases ho

/-- **Nothing ready is left on the board.** -/
theorem Edit.settles {L : Licence} {d d' : Debt} {b b' : Board} (h : Edit L d b d' b')
    (hw : Wired b) (hs : Settled d b) : Settled d' b' := by
  cases h with
  | staff h =>
    intro p hp x hx ep ho w ha hm
    have hxb : x ∈ b.cards := h.cards ▸ hx
    have met : b.Met x.id := by
      intro n hn
      obtain ⟨y, hy, e⟩ := hm n (h.needs ▸ hn)
      exact ⟨y, h.cards ▸ hy, e⟩
    obtain ⟨hsn, hb⟩ := hs p hp x hxb ep ho w ha met
    refine ⟨(h.session hw hxb ha).mpr hsn, Board.busy_iff.mpr ?_⟩
    rw [h.cards]
    exact Board.busy_iff.mp hb
  | brief c w hc hp ha => exact hs
  | shift hc h => exact hs.shift hw hc h
  | stop hc h => exact hs.shift hw hc h
  | create c ns h hu =>
    intro p hp x hx ep ho w ha hm
    have old : ∀ {n}, (b.add c ns).Is n .accepted → b.Is n .accepted :=
      Board.is_of_add h.not_accepted
    rcases Board.mem_add.mp hx with hx | rfl
    · have met : b.Met x.id := fun n hn => old (hm n (List.mem_append_left _ hn))
      obtain ⟨hsn, hb⟩ := hs p hp x hx ep ho w ha met
      obtain ⟨y, hy, hyk⟩ := Board.busy_iff.mp hb
      exact ⟨hsn, Board.busy_iff.mpr ⟨y, Board.mem_add.mpr (Or.inl hy), hyk⟩⟩
    · -- a new card that waits on the board waits for something
      rcases h.phase with ⟨-, hk⟩ | ⟨e, -⟩
      · obtain ⟨n, hn, hna⟩ := hk w ha
        have : (x.id, n) ∈ (b.add x ns).needs :=
          List.mem_append_right _ (List.mem_map.mpr ⟨n, hn, rfl⟩)
        exact absurd (old (hm n this)) hna
      · rw [ho] at e
        cases e
  | link t n ht hn hne hp hr hc hd =>
    intro p hp x hx ep ho w ha hm
    exact hs p hp x hx ep ho w ha fun k hk => hm k (List.mem_append_left _ hk)
  | unlink t n ht =>
    intro p hp x hx ep ho w ha hm
    refine hs p (fun k => hp (Set.mem_insert_of_mem _ k)) x hx ep ho w ha fun k hk => ?_
    refine hm k (List.mem_filter.mpr ⟨hk, bne_iff_ne.mpr fun e => ?_⟩)
    obtain ⟨e, -⟩ := Prod.mk.inj e
    rw [hw.unique hx ht e] at ep
    exact hp (ep ▸ Set.mem_insert _ _)
  | tell p n h => exact hs
  | dismiss ws hu => exact hs.dismiss ws _ _
  | allMet t h => exact hs
  | allTold n h => exact hs
  | settled q h =>
    intro p hp
    by_cases e : p = q
    · exact e ▸ h
    · exact hs p fun k => hp ⟨k, e⟩

/-! ## 8. A window takes nothing while a result of it is undecided -/

/-- Of a chain of edits that began with the board `b0`: the cards it did not change are as they
    were, and one in a session was there or was sent back to it, or found no undecided result. -/
structure Decided (b0 : Board) (d : Debt) (b : Board) : Prop where
  same : ∀ c ∈ b.cards, c.id ∉ d.moved → b0.Is c.id c.phase
  free : ∀ c ∈ b.cards, c.phase = .held → ∀ w, c.assignee = some w → b.Session w →
    (∃ c0 ∈ b0.cards, c0.id = c.id ∧ c0.phase.waits = false) ∨ ¬ b.Undecided w

/-- What `Decided` asks: none of the doors that do not look for a result. -/
def Licence.decided : Licence := fun door _ _ _ =>
  door = .released ∨ door = .assigned ∨ door = .reopened

theorem Decided.start (b : Board) : Decided b .none b := by
  refine ⟨fun c hc _ => ⟨c, hc, rfl, rfl⟩, fun c hc hp w ha hs => Or.inl ⟨c, hc, rfl, ?_⟩⟩
  rw [hp]
  rfl

theorem Shift.moved {L : Licence} {b : Board} {d d' : Debt} {c c' : Card}
    (h : Shift L b d c d' c') {t : Nat} (ht : t ∉ d'.moved) : t ≠ c.id ∧ t ∉ d.moved := by
  have hm : d'.moved = insert c.id d.moved := by cases h <;> rfl
  rw [hm] at ht
  exact ⟨fun e => ht (Or.inl e), fun k => ht (Or.inr k)⟩

/-- A card has an undecided result after a move because it had one, or because the move finished
    it, the first of its call. -/
theorem Shift.finishes {L : Licence} {b : Board} {d d' : Debt} {c c' : Card}
    (h : Shift L b d c d' c') (hp : c'.phase = .done) (hd : c'.deleted = false) :
    d.moved = ∅ := by
  cases h with
  | finished hc hd hm hu => exact hm
  | deleted hc hn hu => cases hd
  | _ => cases hp

theorem Decided.shift {L : Licence} (hL : ∀ door b c w, L door b c w → Licence.decided door b c w)
    {b0 : Board} {d d' : Debt} {b : Board} {c c' : Card} (hc : c ∈ b.cards)
    (h : Shift L b d c d' c') (hf : Decided b0 d b) : Decided b0 d' (b.put c') := by
  have sh := h.shifted
  have mem : ∀ {x}, x ∈ (b.put c').cards → x = c' ∨ (x ∈ b.cards ∧ x.id ≠ c.id) :=
    (Board.mem_put hc sh.id).mp
  -- a result is in after the move: it was in before it, or the move was the first
  have came : ∀ {w}, (b.put c').Undecided w → b.Undecided w ∨ d.moved = ∅ := by
    rintro w ⟨x, hx, ha, hp, hd⟩
    rcases mem hx with rfl | ⟨hx, -⟩
    · exact Or.inr (h.finishes hp hd)
    · exact Or.inl ⟨x, hx, ha, hp, hd⟩
  refine ⟨fun x hx hm => ?_, fun x hx hp w ha hs => ?_⟩
  · obtain ⟨hne, hm⟩ := h.moved hm
    rcases mem hx with rfl | ⟨hx, -⟩
    · exact absurd sh.id hne
    · exact hf.same x hx hm
  · rcases mem hx with rfl | ⟨hx, -⟩
    · obtain ⟨door, v, ev, hop, hl, -, hr⟩ := h.entered hp
      obtain rfl : v = w := Option.some.inj (ev.symm.trans ha)
      have none_of : ¬ b.Undecided v → ¬ (b.put x).Undecided v := by
        rintro hn ⟨y, hy, hya, hyp, hyd⟩
        rcases mem hy with rfl | ⟨hy, -⟩
        · rw [hp] at hyp
          cases hyp
        · exact hn ⟨y, hy, hya, hyp, hyd⟩
      rcases hL _ _ _ _ hl with rfl | rfl | rfl
      · exact Or.inr (none_of (hop.2.2.2 hs).2)
      · refine Or.inr (none_of ?_)
        rintro ⟨y, hy, hya, -⟩
        exact hop.2.2.1 y hy hya
      · -- sent back: it was done or failed as the call began
        obtain ⟨c0, h0, e0, p0⟩ := hf.same c hc (hr rfl)
        refine Or.inl ⟨c0, h0, e0.trans sh.id.symm, ?_⟩
        rw [p0]
        rcases hop.1 with e | e <;> rw [e] <;> rfl
    · by_cases hu : (b.put c').Undecided w
      · rcases came hu with hu | hm
        · exact (hf.free x hx hp w ha hs).imp id fun k => absurd hu k
        · obtain ⟨c0, h0, e0, p0⟩ := hf.same x hx (by rw [hm]; exact Set.notMem_empty _)
          refine Or.inl ⟨c0, h0, e0, ?_⟩
          rw [p0, hp]
          rfl
      · exact Or.inr hu

/-- **A window takes nothing while a result of it is undecided.** -/
theorem Edit.decided {L : Licence} (hL : ∀ door b c w, L door b c w → Licence.decided door b c w)
    {b0 : Board} {d d' : Debt} {b b' : Board} (h : Edit L d b d' b') (hw : Wired b)
    (hf : Decided b0 d b) : Decided b0 d' b' := by
  cases h with
  | staff h =>
    refine ⟨fun x hx => hf.same x (h.cards ▸ hx), fun x hx hp w ha hs => ?_⟩
    have hxb : x ∈ b.cards := h.cards ▸ hx
    refine (hf.free x hxb hp w ha ((h.session hw hxb ha).mp hs)).imp id fun k => ?_
    rintro ⟨y, hy, hyk⟩
    exact k ⟨y, h.cards ▸ hy, hyk⟩
  | shift hc h => exact hf.shift hL hc h
  | stop hc h =>
    have k := hf.shift hL hc h
    exact ⟨k.same, k.free⟩
  | create c ns h hu =>
    refine ⟨fun x hx hm => ?_, fun x hx hp w ha hs => ?_⟩
    · rcases Board.mem_add.mp hx with hx | rfl
      · exact hf.same x hx fun k => hm (Or.inr k)
      · exact absurd (Or.inl rfl) hm
    · have hnd : c.phase ≠ .done := by
        rcases h.phase with ⟨e, -⟩ | ⟨e, -⟩ <;> simp [e]
      have none_of : ¬ b.Undecided w → ¬ (b.add c ns).Undecided w := by
        rintro hn ⟨y, hy, hya, hyp, hyd⟩
        rcases Board.mem_add.mp hy with hy | rfl
        · exact hn ⟨y, hy, hya, hyp, hyd⟩
        · exact hnd hyp
      rcases Board.mem_add.mp hx with hx | rfl
      · exact (hf.free x hx hp w ha hs).imp id none_of
      · rcases h.phase with ⟨e, -⟩ | ⟨-, -, v, ev, -, hk⟩
        · rw [hp] at e
          cases e
        · obtain rfl : v = w := Option.some.inj (ev.symm.trans ha)
          rcases hk with hk | hl
          · exact Or.inr (none_of (hk hs))
          · rcases hL _ _ _ _ hl with k | k | k <;> cases k
  | dismiss ws hu =>
    refine ⟨fun x hx hm => ?_, fun x hx hp w ha hs => ?_⟩
    · rcases Board.mem_dismiss hx with ⟨hx, -⟩ | ⟨c, hc, hl, rfl⟩
      · exact hf.same x hx fun k => hm (Or.inl k)
      · exact absurd (Or.inr ⟨c, hc, rfl, hl⟩) hm
    · rcases Board.mem_dismiss hx with ⟨hx, -⟩ | ⟨c, -, -, rfl⟩
      · refine (hf.free x hx hp w ha hs).imp id fun k => ?_
        rintro ⟨y, hy, hya, hyp, hyd⟩
        rcases Board.mem_dismiss hy with ⟨hy, -⟩ | ⟨c, -, -, rfl⟩
        · exact k ⟨y, hy, hya, hyp, hyd⟩
        · cases hyp
      · cases hp
  | _ => exact ⟨hf.same, hf.free⟩

end ConsensFlow
