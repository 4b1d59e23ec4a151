import Uperf.Duplex.System

/-!
# Both sides use the same connections

Whatever the kernels answer and in whatever order the two strands are run, the
system is an exchange of two parties with dual scripts (`Mirrors`).
-/

namespace Uperf

open Lib TwoSides

theorem Role.peer_eq_other (s : Role) : s.peer = other s := rfl

namespace Duplex

variable (st : Duplex) (s t : Role)

@[simp] theorem ends_setEnd_self (e : End) : (st.setEnd s e).ends s = e :=
  Function.update_self ..

@[simp] theorem ends_setEnd_other (e : End) :
    (st.setEnd s e).ends (other s) = st.ends (other s) :=
  Function.update_of_ne (other_ne s) ..

@[simp] theorem backlog_setEnd (e : End) : (st.setEnd s e).backlog = st.backlog := rfl

@[simp] theorem queue_setEnd (e : End) : (st.setEnd s e).queue = st.queue := rfl

@[simp] theorem commands_setEnd (e : End) : (st.setEnd s e).commands = st.commands := rfl

@[simp] theorem ends_setBacklog (protocol : UInt32) (links : List Conn) :
    (st.setBacklog s protocol links).ends = st.ends := rfl

@[simp] theorem queue_setBacklog (protocol : UInt32) (links : List Conn) :
    (st.setBacklog s protocol links).queue = st.queue := rfl

@[simp] theorem commands_setBacklog (protocol : UInt32) (links : List Conn) :
    (st.setBacklog s protocol links).commands = st.commands := rfl

theorem backlog_setBacklog (protocol protocol' : UInt32) (links : List Conn) :
    (st.setBacklog s protocol links).backlog t protocol' =
      if t = s ∧ protocol' = protocol then links else st.backlog t protocol' := by
  by_cases hts : t = s
  · subst hts
    simp [setBacklog, Function.update_apply]
  · simp [setBacklog, hts]

@[simp] theorem ends_setQueue (link : Conn) (bytes : List Sent) :
    (st.setQueue s link bytes).ends = st.ends := rfl

@[simp] theorem backlog_setQueue (link : Conn) (bytes : List Sent) :
    (st.setQueue s link bytes).backlog = st.backlog := rfl

@[simp] theorem commands_setQueue (link : Conn) (bytes : List Sent) :
    (st.setQueue s link bytes).commands = st.commands := rfl

theorem queue_setQueue (link link' : Conn) (bytes : List Sent) :
    (st.setQueue s link bytes).queue t link' =
      if t = s ∧ link' = link then bytes else st.queue t link' := by
  by_cases hts : t = s
  · subst hts
    simp [setQueue, Function.update_apply]
  · simp [setQueue, hts]

end Duplex

/-! ## The system as an exchange -/

/-- What is left of the script of a side, as acts. -/
def End.acts (e : End) (s : Role) (calls : List Call) : List (Act Key Item) :=
  units s e.links.length e.transfers (residual calls e.answers)

/-- The connections of a side are those of the table, and it has not forgotten a
barrier. -/
structure End.Sound (e : End) (calls : List Call) (table : ℕ → Option Conn) : Prop where
  scope : Scoped e.links.length (residual calls e.answers)
  links : ∀ n link, e.links[n]? = some link → table n = some link
  passed : e.passed + (residual calls e.answers).count .barrier = calls.count .barrier

/-- The state of the two sides as an exchange.  `table` is the connection that has a
number on one of the sides, or on both. -/
structure Duplex.Mirrors (calls : Role → List Call) (st : Duplex) (table : ℕ → Option Conn)
    (ex : Exchange Role Key Item) : Prop where
  script : ∀ s, ex.script s = (st.ends s).acts s (calls s)
  sound : ∀ s, (st.ends s).Sound (calls s) table
  numbered : ∀ n link, table n = some link → link.number = n
  known : ∀ n link, table n = some link → ∃ s, n < (st.ends s).links.length
  backlog : ∀ s protocol, ex.queue s (.backlog protocol) =
    (st.backlog s protocol).map fun link => .link link.number
  pending : ∀ s protocol, ∀ link ∈ st.backlog s protocol, table link.number = some link
  data : ∀ s n, ex.queue s (.data n) =
    (table n).elim [] fun link => (st.queue s link).map .byte
  unknown : ∀ s link, table link.number ≠ some link → st.queue s link = []
  command : ∀ s, ex.queue s .command =
    if s = .slave then List.replicate st.commands .command else []

section

variable {calls rest : List Call} {e : End} {table table' : ℕ → Option Conn} {s : Role}
  {protocol : UInt32} {call : Call} {link : Conn} {conn off size k : ℕ}

theorem residual_append (calls : List Call) (answers : List ℕ) (n : ℕ) :
    residual calls (answers ++ [n]) = advance (residual calls answers) n :=
  List.foldl_append

/-- What is left after a transfer of some bytes. -/
theorem advance_transfer {mk : ℕ → ℕ → Call}
    (hmk : mk = .send conn ∨ mk = .recv conn) (hpos : 0 < k) (hle : k ≤ size) :
    advance (mk off size :: rest) k =
      if k < size then mk (off + k) (size - k) :: rest else rest := by
  have hfit := fit_eq hpos hle
  rcases hmk with rfl | rfl
  · simp only [advance, hfit]
  · simp only [advance, hfit]

theorem End.Sound.mono (h : e.Sound calls table)
    (hmono : ∀ n link, table n = some link → table' n = some link) : e.Sound calls table' :=
  ⟨h.scope, fun n link hn => hmono n link (h.links n link hn), h.passed⟩

theorem End.Sound.opens (h : e.Sound calls table)
    (hcall : residual calls e.answers = call :: rest)
    (hopens : call = .connect protocol ∨ call = .accept protocol)
    (hmono : ∀ n link, table n = some link → table' n = some link)
    (hlink : table' e.links.length = some link) : (e.opens link).Sound calls table' where
  scope := by
    have hscope := h.scope
    rw [hcall] at hscope
    rw [End.opens, residual_append, hcall, List.length_append]
    rcases hopens with rfl | rfl
    · exact hscope
    · exact hscope
  links n link' hn := by
    by_cases hlt : n < e.links.length
    · rw [End.opens, List.getElem?_append_left hlt] at hn
      exact hmono n link' (h.links n link' hn)
    · rw [End.opens, List.getElem?_append_right (Nat.not_lt.mp hlt)] at hn
      rw [List.getElem?_singleton] at hn
      obtain ⟨hzero, heq⟩ := Option.ite_none_right_eq_some.mp hn
      cases heq
      have hn : n = e.links.length := by omega
      rw [hn]
      exact hlink
  passed := by
    have hpassed := h.passed
    rw [hcall] at hpassed
    rw [End.opens, residual_append, hcall]
    rcases hopens with rfl | rfl
    · simpa [advance] using hpassed
    · simpa [advance] using hpassed

theorem End.Sound.moves (h : e.Sound calls table) {mk : ℕ → ℕ → Call}
    (hmk : mk = .send conn ∨ mk = .recv conn)
    (hcall : residual calls e.answers = mk off size :: rest) (hpos : 0 < k) (hle : k ≤ size) :
    (e.moves size k).Sound calls table := by
  have hleft : residual calls (e.moves size k).answers =
      if k < size then mk (off + k) (size - k) :: rest else rest := by
    rw [End.moves, residual_append, hcall, advance_transfer hmk hpos hle]
  have hscope := h.scope
  have hpassed := h.passed
  rw [hcall] at hscope hpassed
  refine ⟨?_, h.links, ?_⟩
  · rw [hleft]
    split_ifs
    · rcases hmk with rfl | rfl
      · exact hscope
      · exact hscope
    · rcases hmk with rfl | rfl
      · exact hscope.2
      · exact hscope.2
  · rw [hleft]
    have hmoves : (e.moves size k).passed = e.passed := rfl
    rw [hmoves, ← hpassed]
    rcases hmk with rfl | rfl
    · split_ifs <;> simp
    · split_ifs <;> simp

theorem End.Sound.passes (h : e.Sound calls table)
    (hcall : residual calls e.answers = .barrier :: rest) : e.passes.Sound calls table := by
  have hscope := h.scope
  have hpassed := h.passed
  rw [hcall] at hscope hpassed
  have hleft : residual calls e.passes.answers = rest := by
    rw [End.passes, residual_append, hcall]
    rfl
  refine ⟨?_, h.links, ?_⟩
  · rw [hleft]
    exact hscope
  · rw [hleft, ← hpassed, List.count_cons_self]
    have hpasses : e.passes.passed = e.passed + 1 := rfl
    omega

theorem End.acts_opens (hcall : residual calls e.answers = call :: rest)
    (hopens : call = .connect protocol ∨ call = .accept protocol) :
    (e.opens link).acts s calls = units s (e.links.length + 1) e.transfers rest := by
  rw [End.acts, End.opens, residual_append, hcall, List.length_append]
  rcases hopens with rfl | rfl
  · rfl
  · rfl

theorem End.acts_passes (hcall : residual calls e.answers = .barrier :: rest) :
    e.passes.acts s calls = units s e.links.length e.transfers rest := by
  rw [End.acts, End.passes, residual_append, hcall]
  rfl

/-- The acts of a transfer are those of the bytes that are moved and of those that
are left. -/
theorem End.acts_send (hcall : residual calls e.answers = .send conn off size :: rest)
    (hpos : 0 < k) (hle : k ≤ size) :
    e.acts s calls = ((sentBytes e.transfers off k).map Item.byte).map (.put (.data conn)) ++
      (e.moves size k).acts s calls := by
  rw [End.acts, End.acts, hcall, End.moves, residual_append, hcall,
    advance_transfer (.inl rfl) hpos hle, units, sentBytes_add _ _ k size hle]
  split_ifs with hlt
  · simp [units]
  · have hsize : size - k = 0 := by omega
    simp [hsize, sentBytes]

@[inherit_doc End.acts_send]
theorem End.acts_recv (hcall : residual calls e.answers = .recv conn off size :: rest)
    (hpos : 0 < k) (hle : k ≤ size) :
    e.acts s calls = ((sentBytes e.transfers off k).map Item.byte).map (.take (.data conn)) ++
      (e.moves size k).acts s calls := by
  rw [End.acts, End.acts, hcall, End.moves, residual_append, hcall,
    advance_transfer (.inr rfl) hpos hle, units, sentBytes_add _ _ k size hle]
  split_ifs with hlt
  · simp [units]
  · have hsize : size - k = 0 := by omega
    simp [hsize, sentBytes]

end

/-! ## The steps -/

section

variable {calls : Role → List Call} {st : Duplex} {table : ℕ → Option Conn}
  {ex : Exchange Role Key Item} {s : Role} {rest : List Call} {protocol : UInt32} {link : Conn}
  {conn off size k : ℕ}

/-- A new connection gets a number that the other side does not use yet. -/
theorem Duplex.Mirrors.connect (h : st.Mirrors calls table ex) (hl : ex.Linked)
    (hcall : residual (calls s) (st.ends s).answers = .connect protocol :: rest)
    (hlink : link = ⟨s, (st.ends s).links.length⟩) :
    ∃ table' ex', ex.steps s 1 = some ex' ∧
      ((st.setBacklog s.peer protocol (st.backlog s.peer protocol ++ [link])).setEnd s
        ((st.ends s).opens link)).Mirrors calls table' ex' := by
  have hnumber : link.number = (st.ends s).links.length := by rw [hlink]
  have hscript : ex.script s = .put (.backlog protocol) (.link link.number) ::
      units s ((st.ends s).links.length + 1) (st.ends s).transfers rest := by
    rw [h.script, End.acts, hcall, hnumber]
    rfl
  have hnew : ∀ t, (st.ends t).links.length ≤ link.number := by
    intro t
    rcases eq_or s t with rfl | rfl
    · exact hnumber.ge
    · have hmem := hl.mem_other_of_put hscript
      rw [h.script] at hmem
      exact le_of_mem_units hmem
  have hnone : table link.number = none := by
    by_contra hsome
    obtain ⟨link', hlink'⟩ := Option.ne_none_iff_exists'.mp hsome
    obtain ⟨t, ht⟩ := h.known _ _ hlink'
    exact absurd (hnew t) (Nat.not_le.mpr ht)
  have hmono : ∀ n link', table n = some link' →
      Function.update table link.number (some link) n = some link' := by
    intro n link' hn
    have hne : n ≠ link.number := fun heq => by simp [heq, hnone] at hn
    rwa [Function.update_of_ne hne]
  have hempty : ∀ t, st.queue t link = [] := fun t => h.unknown t link (by simp [hnone])
  refine ⟨Function.update table link.number (some link), _,
    Exchange.steps_one (Exchange.step_put hscript), ?_⟩
  constructor
  · intro t
    rcases eq_or s t with rfl | rfl
    · simp [End.acts_opens hcall (.inl rfl)]
    · simpa using h.script _
  · intro t
    rcases eq_or s t with rfl | rfl
    · simpa using (h.sound t).opens hcall (.inl rfl) hmono (by simp [hnumber])
    · simpa using (h.sound _).mono hmono
  · intro n link' hn
    by_cases heq : n = link.number
    · subst heq
      rw [Function.update_self] at hn
      cases hn
      rfl
    · rw [Function.update_of_ne heq] at hn
      exact h.numbered n link' hn
  · intro n link' hn
    by_cases heq : n = link.number
    · refine ⟨s, ?_⟩
      simp [End.opens, heq, hnumber]
    · rw [Function.update_of_ne heq] at hn
      obtain ⟨t, ht⟩ := h.known n link' hn
      refine ⟨t, ?_⟩
      rcases eq_or s t with rfl | rfl
      · simp only [Duplex.ends_setEnd_self, End.opens, List.length_append]
        omega
      · simpa using ht
  · intro t protocol'
    rw [Exchange.queue_setQueue, Duplex.backlog_setEnd, Duplex.backlog_setBacklog]
    simp only [Key.backlog.injEq, Role.peer_eq_other, Exchange.queue_setScript]
    split_ifs
    · rw [h.backlog, List.map_append]
      rfl
    · exact h.backlog t protocol'
  · intro t protocol' link' hmem
    rw [Duplex.backlog_setEnd, Duplex.backlog_setBacklog] at hmem
    split_ifs at hmem
    · rcases List.mem_append.mp hmem with hmem | hmem
      · exact hmono _ _ (h.pending _ _ link' hmem)
      · rw [List.mem_singleton.mp hmem, Function.update_self]
    · exact hmono _ _ (h.pending _ _ link' hmem)
  · intro t n
    have hsame := h.data t n
    rw [Exchange.queue_setQueue, if_neg (by simp), Exchange.queue_setScript, hsame]
    by_cases heq : n = link.number
    · simp [heq, hnone, hempty]
    · rw [Function.update_of_ne heq]
      rfl
  · intro t link' hne
    refine h.unknown t link' fun hsome => hne (hmono _ _ hsome)
  · intro t
    rw [Exchange.queue_setQueue, if_neg (by simp)]
    exact h.command t

/-- The connection that is accepted has the number that comes next. -/
theorem Duplex.Mirrors.accept (h : st.Mirrors calls table ex) (hl : ex.Linked)
    (hcall : residual (calls s) (st.ends s).answers = .accept protocol :: rest)
    {waiting : List Conn} (hbacklog : st.backlog s protocol = link :: waiting) :
    ∃ ex', ex.steps s 1 = some ex' ∧
      ((st.setBacklog s protocol waiting).setEnd s ((st.ends s).opens link)).Mirrors calls table
        ex' := by
  have hscript : ex.script s = .take (.backlog protocol) (.link (st.ends s).links.length) ::
      units s ((st.ends s).links.length + 1) (st.ends s).transfers rest := by
    rw [h.script, End.acts, hcall]
    rfl
  have hqueue : ex.queue s (.backlog protocol) =
      .link link.number :: waiting.map fun link => .link link.number := by
    rw [h.backlog, hbacklog]
    rfl
  have hnumber : link.number = (st.ends s).links.length :=
    Item.link.inj (hl.head_eq_of_take hscript hqueue)
  have htable : table link.number = some link :=
    h.pending s protocol link (by rw [hbacklog]; exact List.mem_cons_self)
  refine ⟨_, Exchange.steps_one (Exchange.step_take hscript hqueue), ?_⟩
  constructor
  · intro t
    rcases eq_or s t with rfl | rfl
    · simp [End.acts_opens hcall (.inr rfl)]
    · simpa using h.script _
  · intro t
    rcases eq_or s t with rfl | rfl
    · simpa using (h.sound t).opens hcall (.inr rfl) (fun _ _ hn => hn) (hnumber ▸ htable)
    · simpa using h.sound _
  · exact h.numbered
  · intro n link' hn
    obtain ⟨t, ht⟩ := h.known n link' hn
    refine ⟨t, ?_⟩
    rcases eq_or s t with rfl | rfl
    · simp only [Duplex.ends_setEnd_self, End.opens, List.length_append]
      omega
    · simpa using ht
  · intro t protocol'
    rw [Exchange.queue_setQueue, Duplex.backlog_setEnd, Duplex.backlog_setBacklog]
    simp only [Key.backlog.injEq, Exchange.queue_setScript]
    split_ifs
    · rfl
    · exact h.backlog t protocol'
  · intro t protocol' link' hmem
    rw [Duplex.backlog_setEnd, Duplex.backlog_setBacklog] at hmem
    split_ifs at hmem
    · exact h.pending s protocol link' (by rw [hbacklog]; exact List.mem_cons_of_mem _ hmem)
    · exact h.pending _ _ link' hmem
  · intro t n
    rw [Exchange.queue_setQueue, if_neg (by simp)]
    exact h.data t n
  · exact h.unknown
  · intro t
    rw [Exchange.queue_setQueue, if_neg (by simp)]
    exact h.command t

/-- What a transfer leaves as it was, when the bytes to `t` change. -/
theorem Duplex.Mirrors.transfer (h : st.Mirrors calls table ex) {mk : ℕ → ℕ → Call}
    (hmk : mk = .send conn ∨ mk = .recv conn)
    (hcall : residual (calls s) (st.ends s).answers = mk off size :: rest)
    (hlink : (st.ends s).links[conn]? = some link) (hpos : 0 < k) (hle : k ≤ size) (t : Role)
    (bytes : List Sent) :
    ((st.setQueue t link bytes).setEnd s ((st.ends s).moves size k)).Mirrors calls table
      ((ex.setScript s (((st.ends s).moves size k).acts s (calls s))).setQueue t (.data conn)
        (bytes.map .byte)) := by
  have htable : table conn = some link := (h.sound s).links conn link hlink
  have hnumber : link.number = conn := h.numbered conn link htable
  constructor
  · intro t
    rcases eq_or s t with rfl | rfl
    · simp
    · simpa using h.script _
  · intro t
    rcases eq_or s t with rfl | rfl
    · simpa using (h.sound t).moves hmk hcall hpos hle
    · simpa using h.sound _
  · exact h.numbered
  · intro n link' hn
    obtain ⟨t, ht⟩ := h.known n link' hn
    refine ⟨t, ?_⟩
    rcases eq_or s t with rfl | rfl
    · simpa [End.moves] using ht
    · simpa using ht
  · intro t' protocol
    rw [Exchange.queue_setQueue, if_neg (by simp)]
    exact h.backlog t' protocol
  · exact h.pending
  · intro t' n
    have hsame := h.data t' n
    rw [Exchange.queue_setQueue, Exchange.queue_setScript, hsame, Duplex.queue_setEnd]
    by_cases heq : n = conn
    · simp only [heq, htable, Option.elim_some, Duplex.queue_setQueue, and_true]
      split_ifs <;> rfl
    · have hother : ∀ link', table n = some link' → link' ≠ link := by
        intro link' hn hlink'
        exact heq ((h.numbered n link' hn).symm.trans (hlink' ▸ hnumber))
      rw [if_neg (by simp [heq])]
      cases hn : table n with
      | none => rfl
      | some link' => simp [Duplex.queue_setQueue, hother link' hn]
  · intro t' link' hne
    rw [Duplex.queue_setEnd, Duplex.queue_setQueue, if_neg]
    · exact h.unknown t' link' hne
    · rintro ⟨-, rfl⟩
      exact hne (hnumber ▸ htable)
  · intro t'
    rw [Exchange.queue_setQueue, if_neg (by simp)]
    exact h.command t'

theorem Duplex.Mirrors.send (h : st.Mirrors calls table ex)
    (hcall : residual (calls s) (st.ends s).answers = .send conn off size :: rest)
    (hlink : (st.ends s).links[conn]? = some link) (hpos : 0 < k) (hle : k ≤ size) :
    ∃ ex', ex.steps s k = some ex' ∧
      ((st.setQueue s.peer link
        (st.queue s.peer link ++ sentBytes (st.ends s).transfers off k)).setEnd s
          ((st.ends s).moves size k)).Mirrors calls table ex' := by
  have hscript := (h.script s).trans (End.acts_send hcall hpos hle)
  have hsteps := Exchange.steps_puts hscript
  have htable : table conn = some link := (h.sound s).links conn link hlink
  have hdata := h.data s.peer conn
  rw [htable, Option.elim_some] at hdata
  rw [List.length_map, length_sentBytes] at hsteps
  refine ⟨_, hsteps, ?_⟩
  have hmirrors := h.transfer (.inl rfl) hcall hlink hpos hle s.peer
    (st.queue s.peer link ++ sentBytes (st.ends s).transfers off k)
  rwa [List.map_append, ← hdata] at hmirrors

/-- The bytes that a transfer finds are those that it expects. -/
theorem Duplex.Mirrors.recv (h : st.Mirrors calls table ex) (hl : ex.Linked)
    (hcall : residual (calls s) (st.ends s).answers = .recv conn off size :: rest)
    (hlink : (st.ends s).links[conn]? = some link) (hpos : 0 < k) (hle : k ≤ size)
    (hthere : k ≤ (st.queue s link).length) :
    (st.queue s link).take k = sentBytes (st.ends s).transfers off k ∧
      ∃ ex', ex.steps s k = some ex' ∧
        ((st.setQueue s link ((st.queue s link).drop k)).setEnd s
          ((st.ends s).moves size k)).Mirrors calls table ex' := by
  have hscript := (h.script s).trans (End.acts_recv hcall hpos hle)
  have htable : table conn = some link := (h.sound s).links conn link hlink
  have hdata := h.data s conn
  rw [htable, Option.elim_some] at hdata
  have hqueue : ex.queue s (.data conn) =
      ((st.queue s link).take k).map .byte ++ ((st.queue s link).drop k).map .byte := by
    rw [hdata, ← List.map_append, List.take_append_drop]
  have hlength : (((st.queue s link).take k).map Item.byte).length =
      ((sentBytes (st.ends s).transfers off k).map Item.byte).length := by
    simpa using hthere
  have hsteps := Exchange.steps_takes hscript hqueue hlength
  rw [List.length_map, length_sentBytes] at hsteps
  refine ⟨?_, _, hsteps, h.transfer (.inr rfl) hcall hlink hpos hle s _⟩
  have htaken := hl.taken_eq hscript hqueue hlength
  exact List.map_injective_iff.mpr (fun _ _ => Item.byte.inj) htaken

/-- What a barrier leaves as it was, when the number of commands changes. -/
theorem Duplex.Mirrors.pass (h : st.Mirrors calls table ex)
    (hcall : residual (calls s) (st.ends s).answers = .barrier :: rest) (commands : ℕ) :
    ({ st with commands }.setEnd s (st.ends s).passes).Mirrors calls table
      ((ex.setScript s ((st.ends s).passes.acts s (calls s))).setQueue .slave .command
        (List.replicate commands .command)) := by
  constructor
  · intro t
    rcases eq_or s t with rfl | rfl
    · simp
    · simpa using h.script _
  · intro t
    rcases eq_or s t with rfl | rfl
    · simpa using (h.sound t).passes hcall
    · simpa using h.sound _
  · exact h.numbered
  · intro n link' hn
    obtain ⟨t, ht⟩ := h.known n link' hn
    refine ⟨t, ?_⟩
    rcases eq_or s t with rfl | rfl
    · simpa [End.passes] using ht
    · simpa using ht
  · intro t protocol
    rw [Exchange.queue_setQueue, if_neg (by simp)]
    exact h.backlog t protocol
  · exact h.pending
  · intro t n
    rw [Exchange.queue_setQueue, if_neg (by simp)]
    exact h.data t n
  · exact h.unknown
  · intro t
    rw [Exchange.queue_setQueue, Duplex.commands_setEnd]
    by_cases hslave : t = .slave
    · rw [if_pos ⟨hslave, rfl⟩, if_pos hslave]
    · rw [if_neg fun hboth => hslave hboth.1, if_neg hslave]
      exact (h.command t).trans (if_neg hslave)

/-- The master sends a command. -/
theorem Duplex.Mirrors.command_sent (h : st.Mirrors calls table ex)
    (hcall : residual (calls .master) (st.ends .master).answers = .barrier :: rest) :
    ∃ ex', ex.steps .master 1 = some ex' ∧
      (st.release .master).Mirrors calls table ex' := by
  have hscript : ex.script .master =
      .put .command .command :: (st.ends .master).passes.acts .master (calls .master) := by
    rw [h.script, End.acts, hcall, End.acts_passes hcall]
    rfl
  have hmirrors := h.pass hcall (st.commands + 1)
  have hqueue : ex.queue .slave .command = List.replicate st.commands .command := h.command .slave
  rw [List.replicate_succ', ← hqueue] at hmirrors
  exact ⟨_, Exchange.steps_one (Exchange.step_put hscript), hmirrors⟩

/-- The slave reads one. -/
theorem Duplex.Mirrors.command_read (h : st.Mirrors calls table ex)
    (hcall : residual (calls .slave) (st.ends .slave).answers = .barrier :: rest)
    (hthere : 0 < st.commands) :
    ∃ ex', ex.steps .slave 1 = some ex' ∧
      (st.release .slave).Mirrors calls table ex' := by
  have hscript : ex.script .slave =
      .take .command .command :: (st.ends .slave).passes.acts .slave (calls .slave) := by
    rw [h.script, End.acts, hcall, End.acts_passes hcall]
    rfl
  have hqueue : ex.queue .slave .command =
      .command :: List.replicate (st.commands - 1) .command := by
    have hsucc : st.commands - 1 + 1 = st.commands := Nat.sub_add_cancel hthere
    rw [h.command, if_pos rfl, ← List.replicate_succ, hsucc]
  exact ⟨_, Exchange.steps_one (Exchange.step_take hscript hqueue),
    h.pass hcall (st.commands - 1)⟩

/-- What the threads ask is what comes next in their scripts. -/
def Follows (thread : Role → Thread) (calls : Role → List Call) : Prop :=
  ∀ s answers, (thread s).asks answers = (residual (calls s) answers).head?

variable {thread : Role → Thread} {room : Room} {st' : Duplex}

/-- Every step of the system is one or more steps of the exchange. -/
theorem Duplex.Mirrors.step (h : st.Mirrors calls table ex) (hl : ex.Linked)
    (hfollows : Follows thread calls) (hstep : st.step thread room (s, k) = some st') :
    ∃ n table' ex', 0 < n ∧ ex.steps s n = some ex' ∧ st'.Mirrors calls table' ex' := by
  unfold Duplex.step at hstep
  have hasks := hfollows s (st.ends s).answers
  cases hleft : residual (calls s) (st.ends s).answers with
  | nil =>
      rw [hleft] at hasks
      simp only [hasks] at hstep
      cases hstep
  | cons call rest =>
      rw [hleft] at hasks
      simp only [hasks, List.head?_cons] at hstep
      cases call with
      | connect protocol =>
          obtain ⟨-, hsome⟩ := Option.ite_none_right_eq_some.mp hstep
          cases hsome
          obtain ⟨table', ex', hsteps, hmirrors⟩ := h.connect hl hleft rfl
          exact ⟨1, table', ex', Nat.one_pos, hsteps, hmirrors⟩
      | accept protocol =>
          cases hbacklog : st.backlog s protocol with
          | nil =>
              simp only [hbacklog] at hstep
              cases hstep
          | cons link waiting =>
              simp only [hbacklog] at hstep
              cases hstep
              obtain ⟨ex', hsteps, hmirrors⟩ := h.accept hl hleft hbacklog
              exact ⟨1, table, ex', Nat.one_pos, hsteps, hmirrors⟩
      | send conn off size =>
          cases hlink : (st.ends s).links[conn]? with
          | none =>
              simp only [hlink] at hstep
              cases hstep
          | some link =>
              simp only [hlink] at hstep
              obtain ⟨⟨hpos, hle, -⟩, hsome⟩ := Option.ite_none_right_eq_some.mp hstep
              cases hsome
              obtain ⟨ex', hsteps, hmirrors⟩ := h.send hleft hlink hpos hle
              exact ⟨k, table, ex', hpos, hsteps, hmirrors⟩
      | recv conn off size =>
          cases hlink : (st.ends s).links[conn]? with
          | none =>
              simp only [hlink] at hstep
              cases hstep
          | some link =>
              simp only [hlink] at hstep
              obtain ⟨⟨hpos, hle, hthere⟩, hsome⟩ := Option.ite_none_right_eq_some.mp hstep
              cases hsome
              obtain ⟨-, ex', hsteps, hmirrors⟩ := h.recv hl hleft hlink hpos hle hthere
              exact ⟨k, table, ex', hpos, hsteps, hmirrors⟩
      | barrier =>
          cases s with
          | master =>
              cases hstep
              obtain ⟨ex', hsteps, hmirrors⟩ := h.command_sent hleft
              exact ⟨1, table, ex', Nat.one_pos, hsteps, hmirrors⟩
          | slave =>
              obtain ⟨hthere, hsome⟩ := Option.ite_none_right_eq_some.mp hstep
              cases hsome
              obtain ⟨ex', hsteps, hmirrors⟩ := h.command_read hleft hthere
              exact ⟨1, table, ex', Nat.one_pos, hsteps, hmirrors⟩

end

end Uperf
