import DrivingSim.Simulation.HumanWindow
import DrivingSim.Simulation.Reordering
import DrivingSim.Simulation.Replanning
import DrivingSim.Simulation.Acceleration
import DrivingSim.Simulation.CarriedState
import DrivingSim.Simulation.Visits
import DrivingSim.Simulation.Exclusion
import DrivingSim.Simulation.Intervals
import DrivingSim.Hardware.Motor
import DrivingSim.Support.Reachable
import DrivingSim.Hardware.MotorSpeed
import DrivingSim.Hardware.MotorUpdates
import DrivingSim.Hardware.MotorLifetime
import DrivingSim.Hardware.PulseTrain
import DrivingSim.Hardware.PulsePosition
import DrivingSim.Hardware.MockMotor
import DrivingSim.Hardware.MockPosition
import DrivingSim.Hardware.Oscilloscope
import DrivingSim.Hardware.WindowLog
import DrivingSim.Hardware.WindowDelivery
import DrivingSim.Hardware.WindowSize
import DrivingSim.Hardware.WindowTrigger
import DrivingSim.Hardware.WakeUp
import DrivingSim.Hardware.CallbackRename
import DrivingSim.System.LifeCycle
import DrivingSim.Hardware.OscilloscopeLifetime
import DrivingSim.Objects.Registry
import DrivingSim.Objects.Current
import DrivingSim.Objects.Singletons
import DrivingSim.Diagnostics.LogLevel
import DrivingSim.Hardware.IndependentPins
import DrivingSim.Simulation.RoundTrip
import DrivingSim.System.Period
import DrivingSim.Simulation.Occupancy
import DrivingSim.Simulation.FalseNegatives
import DrivingSim.Simulation.Waiting
import DrivingSim.Simulation.SpeedLimit
import DrivingSim.Simulation.Arrival
import DrivingSim.Simulation.Messages
import DrivingSim.Simulation.Ahead
import DrivingSim.Hardware.PinFunctions
import DrivingSim.Hardware.PinLevels
import DrivingSim.System.TimedExec
import DrivingSim.Hardware.WindowSpan
import DrivingSim.Testing.TestTrie
import DrivingSim.Simulation.Turning
import DrivingSim.Objects.Renumbered
import DrivingSim.Testing.TestRun
import DrivingSim.Hardware.PinModes
import DrivingSim.Hardware.Devices
import DrivingSim.Hardware.MotorPin
import DrivingSim.Hardware.Bench
import DrivingSim.Hardware.EmulatedBoard
import DrivingSim.Hardware.WindowOrder
import DrivingSim.Support.NextPermutation
import DrivingSim.Simulation.DrivenPlan
import DrivingSim.Simulation.Search
import DrivingSim.Hardware.Emulation
import DrivingSim.Hardware.MockClock
import DrivingSim.Simulation.Overwriting
