import QBackend.OrderWrites

/-!
# The order invariant

What every write keeps of the order table: identifiers are distinct and below the supply, an
order is UNKNOWN exactly while its reconciliation is pending, it owns exactly one fill when it
is FILLED and none otherwise, and every fill belongs to an order.
-/

namespace QBackend.Execution

open KeyedTables

def Database.fillCount (db : Database) (orderId : ℕ) : ℕ :=
  db.fills.countP (fun f => f.orderId = orderId)

structure OrderInvariant (bound : ℕ) (db : Database) : Prop where
  below : ∀ o ∈ db.orders, o.id < bound
  nodup : (db.orders.map ExecutionOrder.id).Nodup
  consistent : ∀ o ∈ db.orders, o.Consistent
  fillCount : ∀ o ∈ db.orders, db.fillCount o.id = if o.status = .filled then 1 else 0
  fillOwner : ∀ f ∈ db.fills, ∃ o ∈ db.orders, o.id = f.orderId

theorem OrderInvariant.mono {bound bound' : ℕ} {db : Database} (h : OrderInvariant bound db)
    (hb : bound ≤ bound') : OrderInvariant bound' db :=
  ⟨fun o ho => (h.below o ho).trans_le hb, h.nodup, h.consistent, h.fillCount, h.fillOwner⟩

theorem OrderInvariant.fillCount_eq_zero {bound id : ℕ} {db : Database}
    (h : OrderInvariant bound db) (hid : ∀ o ∈ db.orders, o.id ≠ id) : db.fillCount id = 0 := by
  rw [Database.fillCount, List.countP_eq_zero]
  intro f hf hfid
  obtain ⟨o, ho, hof⟩ := h.fillOwner f hf
  exact hid o ho (hof.trans (by simpa using hfid))

section Rewrites

variable {db db' : Database} {id : ℕ} {f : ExecutionOrder → ExecutionOrder}

theorem ExecutionOrder.id_of_identity {o o' : ExecutionOrder} (h : o'.identity = o.identity) :
    o'.id = o.id := congrArg Prod.fst h

theorem ExecutionOrder.barKey_of_identity {o o' : ExecutionOrder} (h : o'.identity = o.identity) :
    o'.barKey = o.barKey := by
  simp only [identity, Prod.mk.injEq] at h
  simp [barKey, h.2.1, h.2.2.2.2.2.2]

theorem Rewritten.map_eq {Value : Type*} (h : Rewritten db id f db') {g : ExecutionOrder → Value}
    (hg : ∀ {o o' : ExecutionOrder}, o'.identity = o.identity → g o' = g o) :
    db'.orders.map g = db.orders.map g := by
  rw [h.orders]
  exact map_modify (fun o => hg (h.identity o))

theorem Rewritten.mem_iff (h : Rewritten db id f db')
    (hnodup : (db.orders.map ExecutionOrder.id).Nodup) {o : ExecutionOrder}
    (ho : db.getExecutionOrder id = some o) {x : ExecutionOrder} :
    x ∈ db'.orders ↔ x = f o ∨ (x ∈ db.orders ∧ x.id ≠ id) := by
  rw [h.orders]
  exact mem_modify_of_lookup hnodup ho

theorem Rewritten.forall_orders {P : ExecutionOrder → Prop} (h : Rewritten db id f db')
    (hP : ∀ o ∈ db.orders, P o) (hf : ∀ o ∈ db.orders, o.id = id → P (f o)) :
    ∀ o ∈ db'.orders, P o := by
  intro x hx
  rw [h.orders, mem_modify] at hx
  rcases hx with ⟨o, ho, hid, rfl⟩ | ⟨hx, -⟩
  · exact hf o ho hid
  · exact hP x hx

theorem Rewritten.exists_id (h : Rewritten db id f db') {n : ℕ}
    (hn : ∃ o ∈ db.orders, o.id = n) : ∃ o ∈ db'.orders, o.id = n := by
  have hids := h.map_eq (g := ExecutionOrder.id) ExecutionOrder.id_of_identity
  have : n ∈ db'.orders.map ExecutionOrder.id := by
    rw [hids]
    exact List.mem_map.mpr hn
  exact List.mem_map.mp this

theorem getExecutionOrder_mem {o : ExecutionOrder} (h : db.getExecutionOrder id = some o) :
    o ∈ db.orders ∧ o.id = id :=
  ⟨mem_of_lookup h, key_of_lookup h⟩

end Rewrites

/-! ## Every write keeps the invariant -/

section Preservation

variable {allowed : FillApplication → Prop} {pointValue : ℚ} {bound : ℕ} {db db' : Database}

theorem OrderInvariant.frame (h : OrderInvariant bound db) (hf : Frame db db') :
    OrderInvariant bound db' := by
  refine ⟨?_, ?_, ?_, ?_, ?_⟩
  · rw [hf.orders]; exact h.below
  · rw [hf.orders]; exact h.nodup
  · rw [hf.orders]; exact h.consistent
  · simp only [Database.fillCount, hf.fills, hf.orders]; exact h.fillCount
  · rw [hf.fills, hf.orders]; exact h.fillOwner

/-- An update of the order of an id, when it stays consistent and the fills count for the orders. -/
theorem OrderInvariant.rewritten (h : OrderInvariant bound db) {id : ℕ}
    {f : ExecutionOrder → ExecutionOrder} (hf : Rewritten db id f db')
    (hconsistent : ∀ o ∈ db.orders, o.id = id → (f o).Consistent)
    (hcount : ∀ o ∈ db'.orders, db'.fillCount o.id = if o.status = .filled then 1 else 0)
    (howner : ∀ x ∈ db'.fills, ∃ o ∈ db.orders, o.id = x.orderId) : OrderInvariant bound db' where
  below := hf.forall_orders h.below fun o ho _ => by
    rw [ExecutionOrder.id_of_identity (hf.identity o)]
    exact h.below o ho
  nodup := by
    rw [hf.map_eq ExecutionOrder.id_of_identity]
    exact h.nodup
  consistent := hf.forall_orders h.consistent hconsistent
  fillCount := hcount
  fillOwner x hx := hf.exists_id (howner x hx)

theorem OrderInvariant.only (h : OrderInvariant bound db) {id : ℕ} {o : ExecutionOrder}
    (ho : db.getExecutionOrder id = some o) : ∀ x ∈ db.orders, x.id = id → x = o := fun _ hx hxid =>
  eq_of_mem_of_key h.nodup hx (getExecutionOrder_mem ho).1
    (hxid.trans (getExecutionOrder_mem ho).2.symm)

theorem OrderInvariant.annotate (h : OrderInvariant bound db) {id : ℕ}
    {f : ExecutionOrder → ExecutionOrder} (hu : Unbooked db db') (hf : Rewritten db id f db')
    (hkeep : ∀ o, (f o).status = o.status ∧ (f o).reconciliationState = o.reconciliationState) :
    OrderInvariant bound db' := by
  refine h.rewritten hf (fun o ho _ => ?_) ?_ (by rw [hu.fills]; exact h.fillOwner)
  · rw [ExecutionOrder.Consistent, (hkeep o).1, (hkeep o).2]
    exact h.consistent o ho
  · simp only [Database.fillCount, hu.fills]
    refine hf.forall_orders h.fillCount (fun o ho _ => ?_)
    rw [ExecutionOrder.id_of_identity (hf.identity o), (hkeep o).1]
    exact h.fillCount o ho

theorem OrderInvariant.intent (h : OrderInvariant bound db) {o : ExecutionOrder}
    (habove : ∀ x ∈ db.orders, x.id < o.id) (hbelow : o.id < bound) (hw : IntentWrite db o db') :
    OrderInvariant bound db' := by
  have hnew : ∀ x ∈ db.orders, x.id ≠ o.id := fun x hx => (habove x hx).ne
  refine ⟨?_, ?_, ?_, ?_, ?_⟩
  · simp only [hw.orders, List.mem_append, List.mem_singleton]
    rintro x (hx | rfl)
    · exact h.below x hx
    · exact hbelow
  · rw [hw.orders, List.map_append, List.map_singleton]
    refine List.Nodup.append h.nodup (by simp) (List.disjoint_singleton.mpr ?_)
    rw [List.mem_map]
    rintro ⟨x, hx, hxo⟩
    exact hnew x hx hxo
  · simp only [hw.orders, List.mem_append, List.mem_singleton]
    rintro x (hx | rfl)
    · exact h.consistent x hx
    · simp [ExecutionOrder.Consistent, hw.status, hw.reconciliationState]
  · simp only [hw.orders, List.mem_append, List.mem_singleton]
    rintro x (hx | rfl)
    · simpa [Database.fillCount, hw.fills] using h.fillCount x hx
    · have hzero := h.fillCount_eq_zero hnew
      simpa [Database.fillCount, hw.fills, hw.status] using hzero
  · rw [hw.fills]
    intro f hf
    obtain ⟨x, hx, hxf⟩ := h.fillOwner f hf
    exact ⟨x, by simp [hw.orders, hx], hxf⟩

theorem OrderInvariant.settle (h : OrderInvariant bound db) {id : ℕ} (hw : SettleWrite db id db') :
    OrderInvariant bound db' := by
  obtain ⟨o, f, ho, hopen, hf, hstatus, hcons⟩ := hw.change
  have homem := (getExecutionOrder_mem ho).1
  refine h.rewritten hf (fun x hx hxid => ?_) ?_ (by rw [hw.fills]; exact h.fillOwner)
  · rw [h.only ho x hx hxid]
    exact hcons (h.consistent o homem)
  · simp only [Database.fillCount, hw.fills]
    refine hf.forall_orders h.fillCount (fun x hx hxid => ?_)
    rw [h.only ho x hx hxid, ExecutionOrder.id_of_identity (hf.identity o)]
    have hcount := h.fillCount o homem
    have hnot : o.status ≠ .filled := fun hs => hopen (.inl hs)
    have hnot' : (f o).status ≠ .filled := by rcases hstatus with hs | hs <;> simp [hs]
    simpa [Database.fillCount, hnot, hnot'] using hcount

theorem OrderInvariant.fill (h : OrderInvariant bound db) {a : FillApplication}
    (hw : FillWrite pointValue db a db') : OrderInvariant bound db' := by
  obtain ⟨o, f, ho, hopen, hf, hstatus, hcons⟩ := hw.change
  obtain ⟨homem, hoid⟩ := getExecutionOrder_mem ho
  have hcount : ∀ n, db'.fillCount n = db.fillCount n + if a.orderId = n then 1 else 0 := by
    intro n
    by_cases hn : a.orderId = n <;>
      simp [Database.fillCount, hw.fills, FillApplication.row, hn]
  refine h.rewritten hf (fun x hx hxid => ?_) ?_ ?_
  · rw [h.only ho x hx hxid]
    exact hcons (h.consistent o homem)
  · intro x hx
    rcases (hf.mem_iff h.nodup ho).mp hx with rfl | ⟨hx, hne⟩
    · have hzero := h.fillCount o homem
      have hnot : o.status ≠ .filled := fun hs => hopen (.inl hs)
      rw [ExecutionOrder.id_of_identity (hf.identity o), hcount, hzero, hoid]
      simp [hnot, hstatus]
    · rw [hcount, h.fillCount x hx]
      simp [hne.symm]
  · rw [hw.fills]
    intro x hx
    rcases List.mem_append.mp hx with hx | hx
    · exact h.fillOwner x hx
    · rw [List.mem_singleton.mp hx]
      exact ⟨o, homem, hoid⟩

theorem OrderInvariant.write (h : OrderInvariant bound db) (hw : Write allowed pointValue bound db db') :
    OrderInvariant bound db' := by
  cases hw with
  | frame hf => exact h.frame hf
  | annotate id f hu hf hkeep => exact h.annotate hu hf hkeep
  | intent o habove hbelow hi => exact h.intent habove hbelow hi
  | settle id hs => exact h.settle hs
  | fill a _ hf => exact h.fill hf

theorem OrderInvariant.writes (h : OrderInvariant bound db)
    (hw : Writes allowed pointValue bound db db') : OrderInvariant bound db' := by
  induction hw with
  | refl => exact h
  | tail _ hstep ih => exact ih.write hstep

/-! ## A filled order stays filled -/

def Database.IsFilled (db : Database) (id : ℕ) : Prop := ∃ o ∈ db.orders, o.id = id ∧ o.status = .filled

theorem OrderInvariant.isFilled_write (h : OrderInvariant bound db)
    (hw : Write allowed pointValue bound db db') {id : ℕ} (hid : db.IsFilled id) : db'.IsFilled id := by
  obtain ⟨x, hx, hxid, hxs⟩ := hid
  -- A rewrite of an open order is a rewrite of another row.
  have hother : ∀ {i : ℕ} {f : ExecutionOrder → ExecutionOrder} {o : ExecutionOrder},
      db.getExecutionOrder i = some o → ¬ o.status.IsTerminal → Rewritten db i f db' →
      db'.IsFilled id := by
    intro i f o ho hopen hf
    refine ⟨x, (hf.mem_iff h.nodup ho).mpr (.inr ⟨hx, fun hxi => ?_⟩), hxid, hxs⟩
    obtain ⟨homem, hoid⟩ := getExecutionOrder_mem ho
    have hxo := eq_of_mem_of_key h.nodup hx homem (hxi.trans hoid.symm)
    exact hopen (.inl (hxo ▸ hxs))
  cases hw with
  | frame hf => exact ⟨x, by rwa [hf.orders], hxid, hxs⟩
  | annotate i f _ hf hkeep =>
    by_cases hxi : x.id = i
    · refine ⟨f x, ?_, ?_, (hkeep x).1.trans hxs⟩
      · rw [hf.orders, mem_modify]
        exact .inl ⟨x, hx, hxi, rfl⟩
      · exact (ExecutionOrder.id_of_identity (hf.identity x)).trans hxid
    · refine ⟨x, ?_, hxid, hxs⟩
      rw [hf.orders, mem_modify]
      exact .inr ⟨hx, hxi⟩
  | intent o _ _ hi => exact ⟨x, by simp [hi.orders, hx], hxid, hxs⟩
  | settle i hs =>
    obtain ⟨o, f, ho, hopen, hf, -⟩ := hs.change
    exact hother ho hopen hf
  | fill a _ hf =>
    obtain ⟨o, f, ho, hopen, hrew, -⟩ := hf.change
    exact hother ho hopen hrew

theorem OrderInvariant.isFilled_writes (h : OrderInvariant bound db)
    (hw : Writes allowed pointValue bound db db') {id : ℕ} (hid : db.IsFilled id) : db'.IsFilled id := by
  induction hw with
  | refl => exact hid
  | tail hpre hstep ih => exact (h.writes hpre).isFilled_write hstep ih

end Preservation

end QBackend.Execution
