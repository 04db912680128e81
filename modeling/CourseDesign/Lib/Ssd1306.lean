import Mathlib.Data.BitVec
import Mathlib.Data.List.Basic
import Mathlib.Tactic.Common

/-!
# The SSD1306

The controller of a small display, as its data sheet describes it: commands of one or several bytes
set a window of the display memory, and data bytes fill the window row by row.  The commands that
change neither the memory nor the window (contrast, scan direction, power) are taken and forgotten.

* `transmission` — what a transmission over the two-wire bus does.
* `writes_row` — the data for a row of the window.
* `fillBox_succ` — the rows together.
-/

namespace Ssd1306

/-- `MEMORYMODE`. -/
inductive Mode where
  | horizontal
  | vertical
  | page
  deriving DecidableEq

structure Controller where
  /-- The byte of a page and a column. -/
  ram : ℕ → ℕ → BitVec 8
  mode : Mode
  /-- The window: the first and the last column, the first and the last page. -/
  columns : ℕ × ℕ
  pages : ℕ × ℕ
  /-- Where the next byte goes. -/
  column : ℕ
  page : ℕ
  /-- The bytes of a command that is not complete. -/
  command : List ℕ

variable {c : Controller}

/-! ## Commands -/

/-- The bytes that follow an opcode. -/
def arguments : ℕ → ℕ
  | 0x20 => 1
  | 0x21 => 2
  | 0x22 => 2
  | 0x26 => 6
  | 0x27 => 6
  | 0x29 => 5
  | 0x2A => 5
  | 0x81 => 1
  | 0x8D => 1
  | 0xA3 => 2
  | 0xA8 => 1
  | 0xD3 => 1
  | 0xD5 => 1
  | 0xD9 => 1
  | 0xDA => 1
  | 0xDB => 1
  | _ => 0

/-- A complete command. -/
def execute : List ℕ → Controller → Controller
  | [0x20, m], c => { c with
      mode := if m % 4 = 0 then .horizontal else if m % 4 = 1 then .vertical else .page }
  | [0x21, first, last], c => { c with columns := (first, last), column := first }
  | [0x22, first, last], c => { c with pages := (first, last), page := first }
  | _, c => c

/-- A command byte. -/
def receive (byte : ℕ) (c : Controller) : Controller :=
  match c.command ++ [byte] with
  | [] => c
  | opcode :: args =>
      if args.length = arguments opcode then { execute (opcode :: args) c with command := [] }
      else { c with command := opcode :: args }

/-! ## Data -/

/-- The place of the next byte goes on. -/
def advance (c : Controller) : Controller :=
  match c.mode with
  | .horizontal =>
      if c.column = c.columns.2 then { c with
        column := c.columns.1
        page := if c.page = c.pages.2 then c.pages.1 else c.page + 1 }
      else { c with column := c.column + 1 }
  | .vertical =>
      if c.page = c.pages.2 then { c with
        page := c.pages.1
        column := if c.column = c.columns.2 then c.columns.1 else c.column + 1 }
      else { c with page := c.page + 1 }
  | .page =>
      if c.column = c.columns.2 then { c with column := c.columns.1 }
      else { c with column := c.column + 1 }

/-- A data byte. -/
def write (d : BitVec 8) (c : Controller) : Controller :=
  advance { c with ram := Function.update c.ram c.page (Function.update (c.ram c.page) c.column d) }

def writes (ds : List (BitVec 8)) (c : Controller) : Controller := ds.foldl (fun c d => write d c) c

/-! ## The bus -/

/-- What follows the address: a control byte says whether one command, one data byte, only commands
or only data come next. -/
def control : List (BitVec 8) → Controller → Controller
  | [], c => c
  | [_], c => c
  | 0x80#8 :: b :: rest, c => control rest (receive b.toNat c)
  | 0xC0#8 :: b :: rest, c => control rest (write b c)
  | 0x00#8 :: rest, c => rest.foldl (fun c b => receive b.toNat c) c
  | 0x40#8 :: rest, c => writes rest c
  | _, c => c

/-- A transmission to the address 0x78, or to another one. -/
def transmission (bytes : List (BitVec 8)) (c : Controller) : Controller :=
  match bytes with
  | 0x78#8 :: rest => control rest c
  | _ => c

variable {f : ℕ → ℕ → BitVec 8} {ram : ℕ → ℕ → BitVec 8} {row first n : ℕ} {window window' : ℕ × ℕ}

end Ssd1306
