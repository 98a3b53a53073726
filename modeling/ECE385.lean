import ECE385.Lab22.Operations
import ECE385.Lab3.Accumulator
import ECE385.Lab4.Product
import ECE385.Lab62.Ball
import ECE385.Lab71.Display
import ECE385.Slc3.Refine
import ECE385.Slc3.Contention
import ECE385.Slc3.Undefined
import ECE385.Slc3.Pause
import ECE385.Slc3.Branch
import ECE385.Slc3.SortRoutine
import ECE385.Slc3.Multiplier
import ECE385.Slc3.SortDemo
import ECE385.Slc3.Store
import ECE385.Spi.Registers
import ECE385.Spi.Stream
import ECE385.TextMode.Display
import ECE385.TextMode.Deselected
import ECE385.TextMode.ScreenSaver
import ECE385.Tetris.Bookkeeping
import ECE385.Tetris.Reset
import ECE385.Tetris.GameOver
import ECE385.Tetris.Shape
import ECE385.Tetris.Picture
import ECE385.Tetris.LineClear
import ECE385.Tetris.Turn
import ECE385.Tetris.Gravity
import ECE385.Tetris.ColorMapper
import ECE385.Tetris.Rules
import ECE385.Tetris.Requests
import ECE385.Usb.Strings
import ECE385.Usb.Probe
import ECE385.Usb.Finish
import ECE385.Vga.Pulses
