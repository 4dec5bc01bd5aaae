import WasmCodegen.Instruction
import WasmCodegen.Lowering.Resolver
import WasmCodegen.ScopeTable

/-!
# Frames

Lowering a function body works on a *frame*: the scope table, and the instructions emitted so
far.  What stays the same through the body is its *context*: the function's name, the limit on
its locals and the resolver.

`Lowering` keeps the frame of a step that fails, so whatever was declared and emitted before the
failure is still there.  The exception is a nested sequence (`Lowering.nested`), whose
instructions only reach the frame when the whole sequence is lowered.
-/

namespace WasmCodegen

/-- What the lowering of one function may consult. -/
structure Context where
  /-- The name of the function. -/
  function : String
  /-- The number of locals the function may have, parameters included. -/
  maxLocals : Nat
  resolver : Resolver

/-- The state of the lowering of one function. -/
structure Frame where
  scopes : ScopeTable := {}
  code : Array Instruction := #[]

/-- A step of lowering. -/
abbrev Lowering := EStateM CompileError Frame

namespace Lowering

/-- The value of a computation that does not touch the frame. -/
def ofExcept {α : Type} : Except CompileError α → Lowering α
  | .ok a => pure a
  | .error e => throw e

/-- A step on the scope table. -/
def onScopes {α : Type} (action : ScopeTable.Action α) : Lowering α := fun ⟨scopes, code⟩ =>
  match action scopes with
  | .ok a scopes => .ok a ⟨scopes, code⟩
  | .error e scopes => .error e ⟨scopes, code⟩

/-- Emits an instruction. -/
def emit (i : Instruction) : Lowering Unit :=
  modify fun frame => { frame with code := frame.code.push i }

/-- Opens a block scope. -/
def enterScope : Lowering Unit := onScopes (modify ScopeTable.enter)

/-- Closes the innermost block scope. -/
def leaveScope : Lowering Unit := onScopes ScopeTable.leave

/-- The binding of a name. -/
def lookup (name : String) : Lowering (Option Binding) :=
  return (← get).scopes.lookup name

/-- Collects the instructions that a step emits instead of adding them to the frame. -/
def nested {α : Type} (step : Lowering α) : Lowering (α × Array Instruction) :=
  fun ⟨scopes, outer⟩ =>
    match step ⟨scopes, #[]⟩ with
    | .ok a ⟨scopes, inner⟩ => .ok (a, inner) ⟨scopes, outer⟩
    | .error e ⟨scopes, _⟩ => .error e ⟨scopes, outer⟩

/-- Fails if the function has as many locals as it may have. -/
def reserveLocal (ctx : Context) (span : Span) : Lowering Unit := do
  if ctx.maxLocals ≤ (← get).scopes.slotCount then
    throw (.tooManyLocals ctx.function ctx.maxLocals span)

/-- Declares a parameter and gives its slot. -/
def declareParam (ctx : Context) (name : String) (type : ValueType) (span : Span) :
    Lowering Nat := do
  reserveLocal ctx span
  onScopes (ScopeTable.declareParam name type span)

/-- Declares a variable and gives its slot. -/
def declareLocal (ctx : Context) (name : String) (type : ValueType) (span : Span) :
    Lowering Nat := do
  reserveLocal ctx span
  onScopes (ScopeTable.declare name type span)

end Lowering

end WasmCodegen
