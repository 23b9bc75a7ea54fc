import LogConfig.ClassRegistry

/-
  Names of component classes over time. A name stands for the prototype that it was last given:
  the one registered under it, or for an alias the one that its class had at the time of the call
  (`find?_after`). So an alias agrees with its class until the class is given again; from then on
  the alias keeps the former prototype (`instance?_named`, `alias_of_replaced`).
-/

namespace LogConfig

/-- The first of two tables counts. -/
theorem Entries.find?_append {α : Type} (key : String) (table other : List (String × α)) :
    find? key (table ++ other) = (find? key table).or (find? key other) := by
  induction table with
  | nil => rfl
  | cons entry rest ih =>
    obtain ⟨k, v⟩ := entry
    by_cases h : k = key
    · simp [find?, h]
    · simpa [find?, h] using ih

namespace ClassRegistry

/-- A call that gives a name. -/
inductive Naming where
  | register (name : String) (prototype : Component)
  | addAlias (name className : String)

/-- A name as it is looked up: not empty, and without blanks around it. -/
def Proper (name : String) : Prop := name ≠ "" ∧ Text.trim name = name

/-- The names of a call are proper. -/
def Naming.Proper : Naming → Prop
  | register name _ => ClassRegistry.Proper name
  | addAlias name className => ClassRegistry.Proper name ∧ ClassRegistry.Proper className

variable (reg : ClassRegistry)

/-- A registry after a call; an alias of an unknown class changes nothing. -/
def take : Naming → ClassRegistry
  | .register name prototype => reg.register name prototype
  | .addAlias name className => (reg.addAlias name className).getD reg

/-- A registry after calls. -/
def after (calls : List Naming) : ClassRegistry := calls.foldl take reg

/-- The name that a call gives, with its prototype; an alias of an unknown class gives none. -/
def given? : Naming → Option (String × Component)
  | .register name prototype => some (name, prototype)
  | .addAlias name className => (Entries.find? className reg.prototypes).map (name, ·)

/-- The names that calls give, with their prototypes, latest first. -/
def given (reg : ClassRegistry) : List Naming → List (String × Component)
  | [] => []
  | call :: calls => given (reg.take call) calls ++ (reg.given? call).toList

/-! ### What names stand for -/

theorem take_eq (call : Naming) :
    reg.take call = ((reg.given? call).map fun entry => reg.register entry.1 entry.2).getD reg := by
  cases call with
  | register name prototype => rfl
  | addAlias name className =>
    simp only [take, addAlias, given?, Option.map_map]
    rfl

theorem find?_take (call : Naming) (key : String) :
    Entries.find? key (reg.take call).prototypes =
      (Entries.find? key (reg.given? call).toList).or (Entries.find? key reg.prototypes) := by
  rw [take_eq]
  cases reg.given? call with
  | none => rfl
  | some entry =>
    obtain ⟨name, prototype⟩ := entry
    show Entries.find? key (Entries.insert name prototype reg.prototypes) = _
    rw [Entries.find?_insert, Option.toList_some, Entries.find?, Entries.find?]
    by_cases h : name = key
    · rw [if_pos h.symm, if_pos h, Option.some_or]
    · rw [if_neg fun he => h he.symm, if_neg h, Option.none_or]

/-- A name stands for what it was last given, and else for what it stood for before. -/
theorem find?_after (calls : List Naming) (key : String) :
    Entries.find? key (reg.after calls).prototypes =
      (Entries.find? key (reg.given calls)).or (Entries.find? key reg.prototypes) := by
  induction calls generalizing reg with
  | nil => rfl
  | cons call calls ih =>
    rw [given, Entries.find?_append, Option.or_assoc, ← find?_take]
    exact ih (reg.take call)

theorem after_append (calls later : List Naming) :
    reg.after (calls ++ later) = (reg.after calls).after later := List.foldl_append ..

/-- A name that nothing gives again keeps its prototype. -/
theorem find?_after_of_not_mem {calls : List Naming} {key : String}
    (h : key ∉ Entries.keys (reg.given calls)) :
    Entries.find? key (reg.after calls).prototypes = Entries.find? key reg.prototypes := by
  rw [find?_after, (Entries.find?_eq_none_iff key _).2 h, Option.none_or]

/-- An alias of a known class takes over the prototype that the class has. -/
theorem find?_take_addAlias {name className : String} {prototype : Component}
    (h : Entries.find? className reg.prototypes = some prototype) (key : String) :
    Entries.find? key (reg.take (.addAlias name className)).prototypes =
      if key = name then some prototype else Entries.find? key reg.prototypes := by
  rw [take_eq, given?, h]
  exact Entries.find?_insert name key prototype reg.prototypes

variable {reg}

theorem instance?_of_find? {name : String} {prototype : Component} (hname : Proper name)
    (h : Entries.find? name reg.prototypes = some prototype) :
    reg.instance? name = .ok prototype := by
  unfold instance? prototype?
  rw [hname.2, if_neg hname.1, h]

theorem instance?_unknown {name : String}
    (h : Entries.find? (Text.trim name) reg.prototypes = none) :
    ∃ message, reg.instance? name = .error (.instantiation (Text.trim name) message) := by
  unfold instance? prototype?
  split
  · next hempty => exact ⟨_, by rw [hempty]⟩
  · rw [h]
    exact ⟨_, rfl⟩

/-! ### Aliases -/

/-- Names of classes after any calls, from a registry that is empty, or knows the built-in classes,
or any other. An alias that was added stands, until it is given again, for the prototype that its
class had then. The class stands for the same prototype until it is given again itself, and then for
what it was last given, while the alias does not follow. A name that the registry did not know, and
that no call gave, cannot be instantiated. -/
theorem instance?_named (start : ClassRegistry) (calls : List Naming)
    (hproper : ∀ call ∈ calls, call.Proper) :
    (∀ before name className later, calls = before ++ .addAlias name className :: later →
      ((start.after before).addAlias name className).isSome = true →
      let since := ((start.after before).take (.addAlias name className)).given later
      name ∉ Entries.keys since →
      ∃ prototype, (start.after before).instance? className = .ok prototype ∧
        (start.after calls).instance? name = .ok prototype ∧
        (className ∉ Entries.keys since →
          (start.after calls).instance? className = .ok prototype) ∧
        ∀ replacement, Entries.find? className since = some replacement →
          (start.after calls).instance? className = .ok replacement) ∧
    ∀ name, Text.trim name ∉ Entries.keys start.prototypes →
      Text.trim name ∉ Entries.keys (start.given calls) →
      ∃ message, (start.after calls).instance? name =
        .error (.instantiation (Text.trim name) message) := by
  constructor
  · intro before name className later hcalls hadded since hkept
    obtain ⟨hname, hclass⟩ : Proper name ∧ Proper className :=
      hproper (.addAlias name className) (by simp [hcalls])
    have hafter : start.after calls =
        ((start.after before).take (.addAlias name className)).after later := by
      rw [hcalls, after_append]
      rfl
    rw [addAlias, Option.isSome_map] at hadded
    obtain ⟨prototype, hfound⟩ := Option.isSome_iff_exists.1 hadded
    have hnow : ∀ key, Entries.find? key ((start.after before).take
        (.addAlias name className)).prototypes =
          if key = name then some prototype else Entries.find? key (start.after before).prototypes :=
      find?_take_addAlias (start.after before) hfound
    have hstays : Entries.find? className ((start.after before).take
        (.addAlias name className)).prototypes = some prototype := by
      rw [hnow, hfound, ite_self]
    refine ⟨prototype, instance?_of_find? hclass hfound, instance?_of_find? hname ?_,
      fun hunchanged => instance?_of_find? hclass ?_, fun replacement hgiven =>
      instance?_of_find? hclass ?_⟩
    · rw [hafter, find?_after_of_not_mem _ hkept, hnow, if_pos rfl]
    · rw [hafter, find?_after_of_not_mem _ hunchanged, hstays]
    · rw [hafter, find?_after, hgiven, Option.some_or]
  · intro name hstart hgiven
    apply instance?_unknown
    rw [find?_after_of_not_mem _ hgiven]
    exact (Entries.find?_eq_none_iff _ _).2 hstart

/-- A built-in class is replaced between two aliases of it. -/
theorem instance?_named_builtins :
    let calls : List Naming := [.addAlias "Out" "ConsoleAppender",
      .register "ConsoleAppender" (.file {}), .addAlias "Sink" "ConsoleAppender"]
    let reg := builtins.after calls
    (∀ call ∈ calls, call.Proper) ∧ reg.instance? "Out" = .ok (.console {}) ∧
      reg.instance? "Sink" = .ok (.file {}) ∧ reg.instance? "ConsoleAppender" = .ok (.file {}) ∧
      ∃ message, reg.instance? " Zip " = .error (.instantiation (Text.trim " Zip ") message) := by
  intro calls reg
  have hout : Proper "Out" := ⟨by decide, by decide +kernel⟩
  have hsink : Proper "Sink" := ⟨by decide, by decide +kernel⟩
  have hconsole : Proper "ConsoleAppender" := ⟨by decide, by decide +kernel⟩
  have hproper : ∀ call ∈ calls, call.Proper := by
    simp [calls, Naming.Proper, hout, hsink, hconsole]
  obtain ⟨haliases, hunknown⟩ := instance?_named builtins calls hproper
  obtain ⟨first, hfirst, hnamed, -, hreplaced⟩ :=
    haliases [] "Out" "ConsoleAppender" _ rfl rfl (by decide +kernel)
  obtain ⟨second, hsecond, hnamed', -⟩ :=
    haliases [.addAlias "Out" "ConsoleAppender", .register "ConsoleAppender" (.file {})]
      "Sink" "ConsoleAppender" [] rfl rfl (by simp [given, Entries.keys])
  have hformer : (builtins.after []).instance? "ConsoleAppender" = .ok (.console {}) := rfl
  have hnew : (builtins.after [.addAlias "Out" "ConsoleAppender",
    .register "ConsoleAppender" (.file {})]).instance? "ConsoleAppender" = .ok (.file {}) := rfl
  cases hfirst.symm.trans hformer
  cases hsecond.symm.trans hnew
  exact ⟨hproper, hnamed, hnamed', hreplaced _ rfl,
    hunknown " Zip " (by decide +kernel) (by decide +kernel)⟩

/-- The class of an alias is replaced: the class stands for the new prototype, and the alias for the
former one. -/
theorem alias_of_replaced :
    let known := empty.after [.register "C" (.console {})]
    let reg := empty.after
      [.register "C" (.console {}), .addAlias "A" "C", .register "C" (.file {})]
    (known.addAlias "A" "C").isSome = true ∧ reg.instance? "A" = .ok (.console {}) ∧
      reg.instance? "C" = .ok (.file {}) ∧ reg.instance? "A" ≠ reg.instance? "C" := by
  intro known reg
  have halias : reg.instance? "A" = .ok (.console {}) := rfl
  have hclass : reg.instance? "C" = .ok (.file {}) := rfl
  refine ⟨rfl, halias, hclass, ?_⟩
  rw [halias, hclass]
  intro h
  cases h

end ClassRegistry
end LogConfig
