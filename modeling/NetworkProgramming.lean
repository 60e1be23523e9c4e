import NetworkProgramming.Agreement
import NetworkProgramming.ClientBounds
import NetworkProgramming.Hw2
import NetworkProgramming.Hw3.Network
import NetworkProgramming.Hw4.Practice.FileTransfer
import NetworkProgramming.Hw4.ReadErrors
import NetworkProgramming.Hw5.Logger
import NetworkProgramming.Hw5.Practice.EchoDuplex
import NetworkProgramming.Hw5.Practice.EchoStore
import NetworkProgramming.Hw5.Reaping
import NetworkProgramming.Hw5.Sessions
import NetworkProgramming.Hw5.Stream
import NetworkProgramming.Hw6.Capacity
import NetworkProgramming.Hw6.Isolation
import NetworkProgramming.Hw6.Operators
import NetworkProgramming.Hw6.Practice.EchoSelect
import NetworkProgramming.Hw6.ReadErrors
import NetworkProgramming.Hw6.SavePath
import NetworkProgramming.Hw6.SelectSet
import NetworkProgramming.Hw6.Sessions
import NetworkProgramming.Hw6.Shutdown
import NetworkProgramming.Hw7
import NetworkProgramming.Hw8.Completion
import NetworkProgramming.Hw8.Counting
import NetworkProgramming.Hw8.Fidelity
import NetworkProgramming.Hw8.Formatting
import NetworkProgramming.Hw8.Framing
import NetworkProgramming.Hw8.Members
import NetworkProgramming.Hw8.Membership
import NetworkProgramming.Hw8.Practice.Chat
import NetworkProgramming.Hw8.Practice.Mutex
import NetworkProgramming.Hw8.Practice.Semaphore
import NetworkProgramming.RecordedFormula
import NetworkProgramming.TestServ.Computed
import NetworkProgramming.TestServ.Delivery
import NetworkProgramming.TestServ.Division
import NetworkProgramming.TestServ.Membership
import NetworkProgramming.TestServ.TextBounds
import NetworkProgramming.TestServ.Tokenising
