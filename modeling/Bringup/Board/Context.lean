namespace Bringup.Board

structure MemoryBank where
  start : UInt64
  size : UInt64
  deriving DecidableEq, Repr

/-- What the boot steps know about the board. -/
structure Context where
  gpioBases : List UInt64
  ramSize : UInt64
  memory : MemoryBank
  bootParameters : UInt64
  /-- Where the splash image goes. -/
  frameBuffer : UInt64
  deriving DecidableEq, Repr

/-- Base addresses of the five GPIO controllers. -/
def gpioBases : List UInt64 := [0xC001A000, 0xC001B000, 0xC001C000, 0xC001D000, 0xC001E000]

/-- Number of the storage device that keeps the environment. -/
def environmentDevice : Nat := 0

/-- Memory fitted on the board. -/
def fittedMemory : UInt64 := 0x40000000

/-- Top of memory that is kept for others. -/
def reservedMemory : UInt64 := 0x02100000

def memoryStart : UInt64 := 0x40000000

def memorySize : UInt64 := fittedMemory - reservedMemory

/-- Boot parameters lie this far into memory. -/
def bootParameterOffset : UInt64 := 0x100

namespace Context

def initial : Context := ⟨List.replicate 5 0, 0, ⟨0, 0⟩, 0, 0⟩

def initBoard (c : Context) : Context := { c with gpioBases := Board.gpioBases }

def initMemory (c : Context) : Context := { c with ramSize := memorySize }

def initBanks (c : Context) : Context :=
  { c with
    bootParameters := memoryStart + bootParameterOffset
    memory := ⟨memoryStart, memorySize⟩ }

end Context

end Bringup.Board
