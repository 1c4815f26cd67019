import CompositeScript.Proofs.Run

/-! Steps that leave the run alone.

A slot without a node generator is the only source of warnings, and the only one that complains of
the missing generator; a tracing hook is the only source of records. A quiet step does none of this,
and what it answers hangs on the machine only: greater limits can make it succeed, but not change
what it succeeds with. Every step of a run is quiet, up to the slots, the records and what comes
back from the generator. -/

namespace CompositeScript

/-! ## Rules -/

namespace Gen

variable {α β : Type}

/-- The step leaves every run as it is and answers the same in all of them, and it does not complain
of a missing node generator. An answer it has on a machine it has on a larger one, too. -/
structure Quiet (x : Gen α) : Prop where
  leaves : ∀ machine, ∃ answer, answer ≠ .error .noNodeGenerator ∧
    ∀ run, x.perform machine run = (answer, run)
  steady : ∀ {machine larger : Machine}, machine.Within larger → ∀ {run after : Run} {a : α},
    x.perform machine run = (.ok a, after) → x.perform larger run = (.ok a, after)

namespace Quiet

theorem pure (a : α) : Quiet (pure a : Gen α) where
  leaves _ := ⟨.ok a, by simp, fun _ => rfl⟩
  steady _ _ _ _ h := h

theorem throw {f : Fault} (h : f ≠ .noNodeGenerator) : Quiet (throw f : Gen α) where
  leaves _ := ⟨.error f, by simpa using h, fun _ => rfl⟩
  steady _ _ _ _ h := h

/-- A step that hangs on the parser alone. -/
theorem parser {k : Fragment.Parser → Gen α} (hk : ∀ parser, Quiet (k parser)) :
    Quiet (read >>= fun machine => k machine.parser) where
  leaves machine := (hk machine.parser).leaves machine
  steady := by
    intro machine larger hlarger run after a h
    rw [perform_bind_ok perform_read] at h ⊢
    rw [hlarger.parser]
    exact (hk machine.parser).steady hlarger h

theorem bind {x : Gen α} {k : α → Gen β} (hx : Quiet x) (hk : ∀ a, Quiet (k a)) :
    Quiet (x >>= k) where
  leaves machine := by
    obtain ⟨answer, hfault, hanswer⟩ := hx.leaves machine
    cases answer with
    | error f =>
      refine ⟨.error f, ?_, fun run => perform_bind_error (hanswer run)⟩
      exact fun h => hfault (congrArg Except.error (Except.error.inj h))
    | ok a =>
      obtain ⟨answer', hfault', hanswer'⟩ := (hk a).leaves machine
      refine ⟨answer', hfault', fun run => ?_⟩
      rw [perform_bind_ok (hanswer run), hanswer' run]
  steady := by
    intro machine larger hlarger run after b h
    obtain ⟨a, between, hanswer, hb⟩ := exists_of_perform_bind h
    rw [perform_bind_ok (hx.steady hlarger hanswer)]
    exact (hk a).steady hlarger hb

theorem fail {f : Fault} (h : f ≠ .noNodeGenerator) : Quiet (fail f : Gen α) where
  leaves machine := by
    refine ⟨.error (f.told machine), ?_, fun run => perform_fail_eq f⟩
    simpa using Fault.told_ne h (by simp) (by simp)
  steady _ _ _ _ h := (fail_ne_ok (congrArg Prod.fst h)).elim

theorem ofExcept {e : Except Fault α} (h : e ≠ .error .noNodeGenerator) : Quiet (ofExcept e) := by
  cases e with
  | ok a => exact pure a
  | error f => exact fail fun hf => h (congrArg Except.error hf)

theorem walk {f : Value → Except Fault α} {v : Value} (h : f v ≠ .error .noNodeGenerator) :
    Quiet (walk f v) where
  leaves machine := by
    cases hobstacle : machine.obstacle? v with
    | none =>
      obtain ⟨answer, hfault, hanswer⟩ := (ofExcept h).leaves machine
      refine ⟨answer, hfault, fun run => ?_⟩
      rw [perform_walk (Machine.obstacle?_eq_none_iff.mp hobstacle), hanswer]
    | some obstacle =>
      refine ⟨.error obstacle, ?_, fun run => perform_walk_of_obstacle hobstacle⟩
      rintro ⟨⟩
      exact Machine.obstacle?_ne_some (by simp) (by simp) hobstacle
  steady := by
    intro machine larger hlarger run after a hanswer
    cases hobstacle : machine.obstacle? v with
    | none =>
      have hshows := Machine.obstacle?_eq_none_iff.mp hobstacle
      rw [perform_walk hshows] at hanswer
      rw [perform_walk (hshows.mono hlarger)]
      exact (ofExcept h).steady hlarger hanswer
    | some obstacle =>
      rw [perform_walk_of_obstacle hobstacle] at hanswer
      cases hanswer

theorem display (v : Value) : Quiet (display v) := walk (by simp)

theorem shown (v : Value) : Quiet (shown v) := walk (by simp)

theorem field (v : Value) (name : Text) : Quiet (field v name) := by
  unfold Gen.field
  split
  · exact fail (by simp)
  · split
    · exact fail (by simp)
    · exact pure _

end Quiet

end Gen

/-! ## Faults of the calculations -/

theorem Gen.map_ne_error {α β : Type} {e : Except Fault α} {g : α → β} {f : Fault}
    (h : e ≠ .error f) : e.map g ≠ .error f := by
  cases e with
  | ok a => simp [Except.map]
  | error f' => simpa [Except.map] using h

theorem Gen.mapM_ne_error {α β : Type} {g : α → Except Fault β} {as : List α} {f : Fault}
    (h : ∀ a ∈ as, g a ≠ .error f) : as.mapM g ≠ .error f := by
  induction as with
  | nil => simp [Pure.pure, Except.pure]
  | cons a as ih =>
    obtain ⟨ha, has⟩ := List.forall_mem_cons.mp h
    rw [List.mapM_cons]
    cases hg : g a with
    | error f' => simpa [bind, Except.bind, hg] using ha
    | ok b =>
      cases hgs : as.mapM g with
      | error f' => simpa [bind, Except.bind, hgs] using ih has
      | ok bs => simp [bind, Except.bind, Pure.pure, Except.pure]

mutual

theorem Json.fault_of_write : ∀ {v : Value} {f : Fault}, write v = .error f → f = .wrongType
  | .list xs, f, h => by
    cases hxs : writeItems xs with
    | ok ts => simp [write, hxs, Except.map] at h
    | error g =>
      have : g = f := by simpa [write, hxs, Except.map] using h
      exact this ▸ fault_of_writeItems hxs
  | .map r es, f, h => by
    cases hes : writeMembers es with
    | ok ts => simp [write, hes, Except.map] at h
    | error g =>
      have : g = f := by simpa [write, hes, Except.map] using h
      exact this ▸ fault_of_writeMembers hes
  | .undefined, f, h | .tuple _, f, h | .set _, f, h | .bytes _, f, h | .range _, f, h => by
    simpa [write] using h.symm
  | .null, f, h | .bool _, f, h | .int _, f, h | .float _, f, h | .str _, f, h => by
    simp [write] at h

theorem Json.fault_of_writeItems :
    ∀ {xs : List Value} {f : Fault}, writeItems xs = .error f → f = .wrongType
  | [], f, h => by simp [writeItems] at h
  | x :: xs, f, h => by
    simp only [writeItems, bind, Except.bind] at h
    cases hx : write x with
    | error g =>
      rw [hx] at h
      exact Except.error.inj h ▸ fault_of_write hx
    | ok t =>
      cases hxs : writeItems xs with
      | error g =>
        rw [hx, hxs] at h
        exact Except.error.inj h ▸ fault_of_writeItems hxs
      | ok ts =>
        rw [hx, hxs] at h
        cases h

theorem Json.fault_of_writeMembers :
    ∀ {es : List (Value × Value)} {f : Fault}, writeMembers es = .error f → f = .wrongType
  | [], f, h => by simp [writeMembers] at h
  | (k, v) :: es, f, h => by
    simp only [writeMembers, bind, Except.bind] at h
    cases hv : write v with
    | error g =>
      rw [hv] at h
      exact Except.error.inj h ▸ fault_of_write hv
    | ok t =>
      cases hes : writeMembers es with
      | error g =>
        rw [hv, hes] at h
        exact Except.error.inj h ▸ fault_of_writeMembers hes
      | ok ts =>
        rw [hv, hes] at h
        cases h

end

theorem Value.classify_ne_error (v : Value) : v.classify ≠ .error .noNodeGenerator := by
  intro h
  rcases fault_of_classify h with h | ⟨_, h⟩ <;> cases h

theorem Literal.stringOf_ne_error (v : Value) : stringOf v ≠ .error .noNodeGenerator := by
  refine Gen.map_ne_error ?_
  have hitem (item : Value) : escapeItem item ≠ .error .noNodeGenerator := by
    unfold escapeItem
    split
    · simp
    · split <;> simp
    · simp
  unfold escapeOf
  split
  · simp
  · split
    · simp
    · exact Gen.map_ne_error (Gen.mapM_ne_error fun item _ => hitem item)

theorem Literal.numberOf_ne_error (v : Value) : numberOf v ≠ .error .noNodeGenerator := by
  cases v <;> simp [numberOf]

theorem Expression.codeOf_ne_error (tag other : Tag) (v : Value) :
    codeOf tag other v ≠ .error .noNodeGenerator := by
  unfold codeOf
  split
  · split
    · simp
    · split <;> simp
  · simp

theorem Slot.titleComment_ne_error (v : Value) : titleComment v ≠ .error .noNodeGenerator := by
  cases v <;> simp [titleComment]

theorem Slot.parameterList_ne_error (v : Value) :
    parameterList v ≠ .error .noNodeGenerator := by
  have hparameter (item : Value) : parameter item ≠ .error .noNodeGenerator := by
    cases item <;> simp [parameter]
  unfold parameterList
  split
  · simp
  · exact Gen.map_ne_error (Gen.mapM_ne_error fun item _ => hparameter item)

theorem Fragment.readWrapped_ne_error (parser : Parser) (code : Text) :
    readWrapped parser code ≠ .error .noNodeGenerator := by
  unfold readWrapped
  split <;> simp

theorem Function.render_ne_error (parser : Fragment.Parser) (mode : Mode) (v : Value) :
    render parser mode v ≠ .error .noNodeGenerator := by
  have hcode := Expression.codeOf_ne_error .function .expression v
  unfold render
  split
  · next f h =>
    rintro ⟨rfl⟩
    exact hcode h
  · cases mode with
    | plain | bound => simp
    | arrow => exact Gen.map_ne_error (Fragment.readWrapped_ne_error _ _)

theorem Function.shapeOf_ne_error (parser : Fragment.Parser) (finder : NameFinder) (code : Text) :
    shapeOf parser finder code ≠ .error .noNodeGenerator := by
  unfold shapeOf
  split
  · simp
  · refine Gen.map_ne_error ?_
    cases finder with
    | fixed names => simp [NameFinder.find]
    | scan =>
      simp only [NameFinder.find, Fragment.freeNames]
      split
      · simp
      · exact Gen.map_ne_error (Fragment.readWrapped_ne_error _ _)

/-! ## Emitters -/

theorem Collection.json_quiet (v : Value) : (json v).Quiet :=
  .walk fun h => by cases Json.fault_of_write h

theorem emitNumber_quiet (v : Value) : (emitNumber v).Quiet := by
  have hliteral := Literal.numberOf_ne_error v
  cases v with
  | int i => exact .walk hliteral
  | _ => exact .ofExcept hliteral

theorem Expression.emit_quiet (expressions : Rendering) (v : Value) (scope : Scope) :
    (emit expressions v scope).Quiet := by
  cases expressions with
  | standard => exact .ofExcept (Gen.map_ne_error (codeOf_ne_error _ _ v))
  | telling =>
    refine .bind (.field v "value") fun code => .bind (.shown code) fun _ => ?_
    exact .bind (.display scope) fun _ => .pure _

theorem Function.codeField_quiet (v : Value) : (codeField v).Quiet := by
  refine .bind (.field v "value") fun code => ?_
  split
  · exact .pure _
  · exact .fail (by simp)

theorem Function.emitMode_quiet (functions : Rendering) (mode : Mode) (v : Value) :
    (emitMode functions mode v).Quiet := by
  cases functions with
  | standard =>
    exact .parser (k := fun parser => Gen.ofExcept (render parser mode v)) fun parser =>
      .ofExcept (render_ne_error parser mode v)
  | telling =>
    exact .bind (.field v "value") fun code => .bind (.shown code) fun _ => .pure _

theorem Function.emit_quiet (o : Options) (v : Value) : (emit o v).Quiet := by
  unfold emit
  split
  · exact .fail (by simp)
  · refine .bind (codeField_quiet v) fun code => ?_
    refine .parser (k := fun parser => Gen.ofExcept (shapeOf parser o.nameFinder code) >>=
      fun shape => emitShape o.functions shape v) fun parser => ?_
    refine .bind (.ofExcept (shapeOf_ne_error _ _ _)) fun shape => ?_
    cases shape with
    | forward => exact .bind (codeField_quiet v) fun _ => emitMode_quiet _ _ _
    | bound | arrow => exact emitMode_quiet _ _ _

namespace Slot

/-- The nodes of a slot, without what its title and parameters add. -/
def content (node : NodeRenderer) (slot : Value) (scope : Scope) : Gen Text :=
  match setField? slot "value" with
  | none => pure (Text.ofString "null")
  | some v => renderNodes node v scope

/-- The content of a slot with the title in front and the parameters around it. -/
def dress (slot : Value) (content : Text) : Gen Text := do
  let comment ←
    match setField? slot "title" with
    | none => pure []
    | some title => Gen.ofExcept (titleComment title)
  match setField? slot "params" with
  | none => return comment ++ content
  | some ps =>
    let names ← Gen.ofExcept (parameterList ps)
    return comment ++ "(" ++ names ++ ") => (" ++ content ++ ")"

theorem render_eq (node : NodeRenderer) (slot : Value) (scope : Scope) :
    render node slot scope =
      if slot.hasTag .slot then content node slot scope >>= dress slot
      else Gen.fail (.notTagged .slot slot) := by
  unfold render content
  split
  · cases setField? slot "value" <;> rfl
  · rfl

theorem dress_quiet (slot : Value) (content : Text) : (dress slot content).Quiet := by
  have hparams (comment : Text) : Gen.Quiet (
      match setField? slot "params" with
      | none => pure (comment ++ content)
      | some ps => do
        let names ← Gen.ofExcept (parameterList ps)
        return comment ++ "(" ++ names ++ ") => (" ++ content ++ ")") := by
    split
    · exact .pure _
    · exact .bind (.ofExcept (parameterList_ne_error _)) fun _ => .pure _
  unfold dress
  cases setField? slot "title" with
  | none => exact .bind (.pure _) hparams
  | some title => exact .bind (.ofExcept (titleComment_ne_error title)) hparams

end Slot

end CompositeScript
